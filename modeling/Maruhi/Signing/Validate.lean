import Maruhi.Chain.Verify

/-!
# The shared checks (`validate.ts`)

What every verification of a signed record asks: the form of its input, the signer's key, the signature and the
declared head.
-/

open Text

namespace Maruhi.Signing
open Chain

inductive CryptoError (ρ : Type)
  | invalidInput (field : JsString)
  | invalid (reason : ρ)
  | unsupportedMetaLayout (layoutVersion : Nat)
  | thrown
  deriving DecidableEq

variable {ρ : Type}

/-- Stops with what a check found. -/
def stopAt {ε : Type} : Option ε → Except ε Unit
  | some e => .error e
  | none => .ok ()

theorem stopAt_error {ε : Type} {o : Option ε} {e : ε} (h : stopAt o = .error e) : o = some e := by
  cases o with
  | none => cases h
  | some e' => exact congrArg some (Except.error.inj h)

theorem bind_error {ε α β : Type} {x : Except ε α} {f : α → Except ε β} {e : ε} (h : x >>= f = .error e) :
    x = .error e ∨ ∃ a, x = .ok a ∧ f a = .error e := by
  cases x with
  | error e' =>
    cases h
    exact Or.inl rfl
  | ok a => exact Or.inr ⟨a, rfl, h⟩

def importSigningPublicKey (publicKey : Bytes) : Except (CryptoError ρ) Bytes :=
  if publicKey.length ≠ 32 then .error (.invalidInput (lit "signing public key length")) else .ok publicKey

def importActorKeyByFingerprint (history : ChainHistoryIndex) (actorUserId : UserId)
    (actorKeyFingerprintHex : KeyFingerprintHex) (onUnknown : CryptoError ρ) : Except (CryptoError ρ) Bytes :=
  match history.sigKeyByFingerprint actorUserId actorKeyFingerprintHex with
  | none => .error onUnknown
  | some sigPubHex =>
    match decodeHex sigPubHex with
    | none => .error onUnknown
    | some keyBytes => importSigningPublicKey keyBytes

/-- Signed bytes are none where `encodeLengthPrefixed` throws. -/
def verifyEd25519Over (crypto : Crypto) (signedBytes : Option Bytes) (signatureHex : JsString) (publicKey : Bytes)
    (onInvalid : CryptoError ρ) : Except (CryptoError ρ) Unit :=
  match signedBytes with
  | none => .error .thrown
  | some signedBytes =>
    match decodeHex signatureHex with
    | none => .error (.invalidInput (lit "signatureHex"))
    | some signature =>
      if signature.length ≠ signatureBytes then .error (.invalidInput (lit "signatureHex"))
      else if crypto.ed25519Verify publicKey signedBytes signature then .ok ()
      else .error onInvalid

def distributedInputInvalidField (actorKeyFingerprintHex : KeyFingerprintHex) (actorKeyFingerprintField : JsString)
    (signatureHex : JsString) (predecessorSignedBytesHashHex : Option JsString) : Option JsString :=
  if !isHexText fingerprintBytes actorKeyFingerprintHex then some actorKeyFingerprintField
  else if !isHexText signatureBytes signatureHex then some (lit "signatureHex")
  else if predecessorSignedBytesHashHex.any fun hash => !isHexText sha256Bytes hash then
    some (lit "predecessor signedBytesHashHex")
  else none

def hashHexOf (crypto : Crypto) (signedBytes : Option Bytes) : Except (CryptoError ρ) JsString :=
  match signedBytes with
  | none => .error .thrown
  | some signedBytes => .ok (encodeHex (crypto.sha256 signedBytes))

theorem hashHexOf_error {crypto : Crypto} {signedBytes : Option Bytes} {e : CryptoError ρ}
    (h : hashHexOf crypto signedBytes = .error e) : e = .thrown := by
  cases signedBytes with
  | none => exact (Except.error.inj h).symm
  | some bytes => cases h

/-- A 1-based number field that is out of range. -/
def isUnsafeCount (n : Nat) : Bool := n > Json.maxSafeInteger || n < 1

/-! ## The declared head -/

inductive HeadReason
  | chainHeadFuture
  | chainHeadMismatch
  | notMemberAtHead
  | keyMismatchAtHead
  | roleInsufficientAtHead
  | outOfScopeAtHead
  deriving DecidableEq, Repr

/-- `headAuthorizationReason`; `scope` is the environment that a signature is about. -/
def headAuthorizationReason (history : ChainHistoryIndex) (chainHeadSeq : Nat) (chainHeadHashHex : JsString)
    (actorUserId : UserId) (actorKeyFingerprintHex : KeyFingerprintHex) (requiredRole : Role)
    (scope : Option EnvironmentId) : Option HeadReason :=
  if chainHeadSeq > history.headSeq then some .chainHeadFuture
  else if history.entryHashAt chainHeadSeq ≠ some chainHeadHashHex then some .chainHeadMismatch
  else if (history.memberStateAt actorUserId chainHeadSeq).isNone then some .notMemberAtHead
  else match history.deviceStateAt actorUserId actorKeyFingerprintHex chainHeadSeq with
    | none => some .keyMismatchAtHead
    | some device =>
      if roleRank device.permission.role < roleRank requiredRole then some .roleInsufficientAtHead
      else if scope.any fun environmentId => !scopeIncludesEnvironment device.permission.scope environmentId then
        some .outOfScopeAtHead
      else none

end Maruhi.Signing
