import Maruhi.Chain.Bindings
import Maruhi.Chain.Owners
import Maruhi.Gossip.Reconcile
import Maruhi.Signing.Attempts

/-!
# Resolving the signing device

An attempt depends on its device through the signature alone until the signature has verified, so that trying the
devices finds the one that signed, in whatever order.
-/

open Text Search

namespace Maruhi.Signing
open Chain
open Wraps (DekWrapInput)

/-! ## One test -/

/-- A check that is a signature's verdict, or that fails for every device alike. -/
inductive Verdict {δ ε : Type} (test : δ → Except ε Unit) (onInvalid : ε) (passes : δ → Prop) (l : List δ) : Prop
  | alike (e : ε) (hall : ∀ d ∈ l, test d = .error e)
  | verdict (hpasses : ∀ d ∈ l, passes d → test d = .ok ()) (hfails : ∀ d ∈ l, ¬ passes d → test d = .error onInvalid)

section Staged
variable {δ ε α β : Type} {passes : δ → Prop} {l : List δ}

theorem oneTest_staged {retries : AttemptFailure → Bool} (form : Option ε) {test : δ → Except ε Unit} {onInvalid : ε}
    (post : δ → Except ε α) (failure : ε → AttemptFailure) (htest : Verdict test onInvalid passes l)
    (hinvalid : retries (failure onInvalid) = true)
    (hpost : ∀ d ∈ l, ∀ e, post d = .error e → retries (failure e) = false) :
    OneTest retries (fun d => (do stopAt form; test d; post d : Except ε α).mapError failure) passes l := by
  cases form with
  | some e => exact .before (failure e) fun d _ => rfl
  | none =>
    cases htest with
    | alike e hall =>
      refine .before (failure e) fun d hd => ?_
      change (do test d; post d : Except ε α).mapError failure = _
      rw [hall d hd]
      rfl
    | verdict hpasses hfails =>
      refine .test (failure onInvalid) hinvalid (fun d hd hpass => ?_) fun d hd hpass e' herror => ?_
      · change (do test d; post d : Except ε α).mapError failure = _
        rw [hfails d hd hpass]
        rfl
      · change (do test d; post d : Except ε α).mapError failure = .error e' at herror
        rw [hpasses d hd hpass] at herror
        change (post d).mapError failure = .error e' at herror
        cases hp : post d with
        | ok value => rw [hp] at herror; cases herror
        | error e =>
          rw [hp] at herror
          cases herror
          exact hpost d hd e hp

variable {retries : ε → Bool}

theorem oneTest_after {pre : Except ε β} {attempt : β → δ → Except ε α}
    (h : ∀ x, pre = .ok x → OneTest retries (attempt x) passes l) :
    OneTest retries (fun d => pre >>= fun x => attempt x d) passes l := by
  cases hpre : pre with
  | error e => exact .before e fun d _ => rfl
  | ok x => exact h x hpre

theorem oneTest_map {attempt : δ → Except ε α} (f : α → β) (h : OneTest retries attempt passes l) :
    OneTest retries (fun d => (attempt d).map f) passes l := by
  have herror : ∀ d e, (attempt d).map f = .error e ↔ attempt d = .error e := by
    intro d e
    cases attempt d with
    | ok value => exact ⟨fun h => (nomatch h), fun h => (nomatch h)⟩
    | error e' => exact ⟨fun h => by cases h; rfl, fun h => by cases h; rfl⟩
  cases h with
  | before e hall => exact .before e fun d hd => (herror d e).mpr (hall d hd)
  | test e hretry hfails hpasses =>
    exact .test e hretry (fun d hd hpass => (herror d e).mpr (hfails d hd hpass)) fun d hd hpass e' he =>
      hpasses d hd hpass e' ((herror d e').mp he)

theorem oneTest_congr {attempt attempt' : δ → Except ε α} (heq : ∀ d ∈ l, attempt d = attempt' d)
    (h : OneTest retries attempt' passes l) : OneTest retries attempt passes l := by
  cases h with
  | before e hall => exact .before e fun d hd => (heq d hd).trans (hall d hd)
  | test e hretry hfails hpasses =>
    exact .test e hretry (fun d hd hpass => (heq d hd).trans (hfails d hd hpass)) fun d hd hpass e' he =>
      hpasses d hd hpass e' ((heq d hd).symm.trans he)

theorem oneTest_iff {passes' : δ → Prop} {attempt : δ → Except ε α} (hiff : ∀ d ∈ l, (passes d ↔ passes' d))
    (h : OneTest retries attempt passes l) : OneTest retries attempt passes' l := by
  cases h with
  | before e hall => exact .before e hall
  | test e hretry hfails hpasses =>
    exact .test e hretry (fun d hd hpass => hfails d hd fun hp => hpass ((hiff d hd).mp hp)) fun d hd hpass =>
      hpasses d hd ((hiff d hd).mpr hpass)

end Staged

/-! ## The signature of a submission -/

variable (crypto : Crypto)

def Submission.signatureHex : Submission → JsString
  | .value _ _ submitted => submitted.signatureHex
  | .createdVariable _ _ statement => statement.signatureHex
  | .metaStatement _ _ _ _ statement => statement.signatureHex
  | .headAttestation input => input.signatureHex
  | .wraps _ first => first.signatureHex

def MetaStatementContext.signedBytes (context : MetaStatementContext) : Option Bytes :=
  match context.checkedMetaLayout with
  | .ok layout => context.encodeMetaSignedBytes layout
  | .error _ => none

/-- The bytes that the user's device has to have signed. -/
def Submission.signedBytes (projectId : JsString) (userId : UserId) : Submission → Option Bytes
  | .value environmentId variableId submitted =>
    buildValueSignedBytes (valueContext projectId environmentId variableId userId submitted)
  | .createdVariable environmentId variableId statement =>
    (metaContext projectId environmentId (.variable variableId) userId statement).signedBytes
  | .metaStatement environmentId target _ _ statement =>
    (metaContext projectId environmentId target userId statement).signedBytes
  | .headAttestation input => Gossip.buildHeadAttestationSignedBytes (attestationContext projectId userId input)
  | .wraps environmentId first => buildDekWrapSignatureBytes (wrapContext projectId environmentId userId first)

/-- The key verifies the signature over the bytes. -/
def Verifies (signedBytes : Option Bytes) (signatureHex : JsString) (sigPubHex : JsString) : Prop :=
  ∃ key bytes signature, decodeHex sigPubHex = some key ∧ signedBytes = some bytes ∧
    decodeHex signatureHex = some signature ∧ crypto.ed25519Verify key bytes signature = true

/-- The device's key verifies the submission's signature. -/
def Signs (projectId : JsString) (submission : Submission) (device : MemberWithDevice) : Prop :=
  Verifies crypto (submission.signedBytes projectId device.userId) submission.signatureHex device.sigPubHex

/-- A signature over some bytes verifies under one public key at most. -/
def VerifiesUnderOneKey : Prop :=
  ∀ key key' signedBytes signature, crypto.ed25519Verify key signedBytes signature = true →
    crypto.ed25519Verify key' signedBytes signature = true → key = key'

/-! ## The verdict of a signature check -/

section Verdicts
variable {ρ : Type} {l : List MemberWithDevice} {key : MemberWithDevice → Bytes}

theorem verdict_of_bytes {ε : Type} {test : MemberWithDevice → Except ε Unit} {onInvalid : ε} {bytes signature : Bytes}
    {signatureHex : JsString} (hkey : ∀ d ∈ l, decodeHex d.sigPubHex = some (key d))
    (hsignature : decodeHex signatureHex = some signature)
    (htest : ∀ d, test d = if crypto.ed25519Verify (key d) bytes signature then .ok () else .error onInvalid) :
    Verdict test onInvalid (fun d => Verifies crypto (some bytes) signatureHex d.sigPubHex) l := by
  refine .verdict (fun d hd hpass => ?_) fun d hd hpass => ?_
  · obtain ⟨key', bytes', signature', hkey', hbytes, hsignature', hverify⟩ := hpass
    obtain rfl := Option.some.inj ((hkey d hd).symm.trans hkey')
    obtain rfl := Option.some.inj hbytes
    obtain rfl := Option.some.inj (hsignature.symm.trans hsignature')
    rw [htest, if_pos hverify]
  · rw [htest, if_neg]
    intro hverify
    exact hpass ⟨key d, bytes, signature, hkey d hd, rfl, hsignature, hverify⟩

theorem verifyEd25519Over_verdict (hkey : ∀ d ∈ l, decodeHex d.sigPubHex = some (key d)) (signedBytes : Option Bytes)
    (signatureHex : JsString) (onInvalid : CryptoError ρ) :
    Verdict (fun d => verifyEd25519Over crypto signedBytes signatureHex (key d) onInvalid) onInvalid
      (fun d => Verifies crypto signedBytes signatureHex d.sigPubHex) l := by
  cases signedBytes with
  | none => exact .alike .thrown fun d _ => rfl
  | some bytes =>
    cases hsignature : decodeHex signatureHex with
    | none =>
      refine .alike (.invalidInput (lit "signatureHex")) fun d _ => ?_
      unfold verifyEd25519Over
      rw [hsignature]
    | some signature =>
      by_cases hlength : signature.length = signatureBytes
      · refine verdict_of_bytes crypto hkey hsignature fun d => ?_
        unfold verifyEd25519Over
        rw [hsignature]
        dsimp only
        rw [if_neg (not_not_intro hlength)]
      · refine .alike (.invalidInput (lit "signatureHex")) fun d _ => ?_
        unfold verifyEd25519Over
        rw [hsignature]
        dsimp only
        rw [if_pos hlength]

end Verdicts

/-! ## The attempts -/

/-- `distributedInputInvalidField` under a fingerprint of the right form. -/
def submittedInvalidField (signatureHex : JsString) (predecessor : Option JsString) : Option JsString :=
  if !isHexText signatureBytes signatureHex then some (lit "signatureHex")
  else if predecessor.any fun hash => !isHexText sha256Bytes hash then some (lit "predecessor signedBytesHashHex")
  else none

/-- A device that the history knows, by a key of the right form. -/
structure Enrolled (history : ChainHistoryIndex) (u : UserId) (device : MemberWithDevice) : Prop where
  user : device.userId = u
  known : history.sigKeyByFingerprint u device.keyFingerprintHex = some device.sigPubHex
  sig : isHexText 32 device.sigPubHex = true
  fingerprint : isHexText fingerprintBytes device.keyFingerprintHex = true

def keyOf (device : MemberWithDevice) : Bytes := (decodeHex device.sigPubHex).getD []

namespace Enrolled
variable {history : ChainHistoryIndex} {u : UserId} {device : MemberWithDevice}

theorem key (h : Enrolled history u device) : decodeHex device.sigPubHex = some (keyOf device) ∧ (keyOf device).length = 32 := by
  have hsig := h.sig
  unfold isHexText at hsig
  unfold keyOf
  cases hkey : decodeHex device.sigPubHex with
  | none => simp [hkey] at hsig
  | some key =>
    refine ⟨rfl, ?_⟩
    simpa [hkey] using (Bool.and_eq_true_iff.mp hsig).2

theorem import_eq (h : Enrolled history u device) {ρ : Type} (onUnknown : CryptoError ρ) :
    importActorKeyByFingerprint history u device.keyFingerprintHex onUnknown = .ok (keyOf device) := by
  obtain ⟨hkey, hlength⟩ := h.key
  unfold importActorKeyByFingerprint importSigningPublicKey
  rw [h.known]
  dsimp only
  rw [hkey]
  dsimp only
  rw [if_neg (not_not_intro hlength)]

theorem form_eq (h : Enrolled history u device) (field signatureHex : JsString) (predecessor : Option JsString) :
    distributedInputInvalidField device.keyFingerprintHex field signatureHex predecessor =
      submittedInvalidField signatureHex predecessor := by
  unfold distributedInputInvalidField submittedInvalidField
  rw [h.fingerprint]
  rfl

end Enrolled

/-! ## What is no rejected signature -/

theorem retries_valueFailure {e : CryptoError ValueInvalidReason} (h : e ≠ .invalid .signatureInvalid) :
    retries (valueFailure e) = false := by
  cases e with
  | invalid reason => cases reason <;> first | rfl | exact absurd rfl h
  | _ => rfl

theorem retries_metaFailure {e : CryptoError MetaInvalidReason} (h : e ≠ .invalid .signatureInvalid) :
    retries (metaFailure e) = false := by
  cases e with
  | invalid reason => cases reason <;> first | rfl | exact absurd rfl h
  | _ => rfl

theorem DistributedValueInput.headStateReason_ne (input : DistributedValueInput) :
    input.headStateReason ≠ some .signatureInvalid := by
  unfold headStateReason
  dsimp only
  split
  · rename_i reason _
    cases reason <;> simp [valueHeadReason]
  · split
    · simp
    · split_ifs <;> simp

theorem DistributedValueInput.prevReason_ne (input : DistributedValueInput) :
    input.prevReason ≠ some .signatureInvalid := by
  unfold prevReason
  dsimp only
  split_ifs
  · simp
  · split
    · simp
    · split_ifs <;> simp

theorem DistributedMetaStatementInput.headStateReason_ne (input : DistributedMetaStatementInput) :
    input.headStateReason ≠ some .signatureInvalid := by
  unfold headStateReason
  intro h
  obtain ⟨reason, -, hreason⟩ := Option.map_eq_some_iff.mp h
  cases reason <;> cases hreason

theorem DistributedMetaStatementInput.prevReason_ne (input : DistributedMetaStatementInput) :
    input.prevReason ≠ some .signatureInvalid := by
  unfold prevReason
  dsimp only
  split_ifs
  · simp
  · split
    · simp
    · split_ifs <;> simp

/-! ## What follows the signature -/

def valueAfterSignature (input : DistributedValueInput) : Except (CryptoError ValueInvalidReason) JsString := do
  stopAt (input.headStateReason.map .invalid)
  stopAt (input.prevReason.map .invalid)
  computeValueSignedBytesHash crypto input.context

theorem valueAfterSignature_error {input : DistributedValueInput} {e : CryptoError ValueInvalidReason}
    (h : valueAfterSignature crypto input = .error e) : e ≠ .invalid .signatureInvalid := by
  rintro rfl
  rcases bind_error h with h | ⟨-, -, h⟩
  · obtain ⟨reason, hreason, heq⟩ := Option.map_eq_some_iff.mp (stopAt_error h)
    cases heq
    exact input.headStateReason_ne hreason
  rcases bind_error h with h | ⟨-, -, h⟩
  · obtain ⟨reason, hreason, heq⟩ := Option.map_eq_some_iff.mp (stopAt_error h)
    cases heq
    exact input.prevReason_ne hreason
  rcases bind_error h with h | ⟨-, -, h⟩
  · obtain ⟨field, -, heq⟩ := Option.map_eq_some_iff.mp (stopAt_error h)
    cases heq
  · cases hashHexOf_error h

def metaAfterSignature (input : DistributedMetaStatementInput) : Except (CryptoError MetaInvalidReason) JsString := do
  stopAt (input.headStateReason.map .invalid)
  stopAt (input.prevReason.map .invalid)
  computeMetaSignedBytesHash crypto input.context

theorem selectMetaLayout_error {context : MetaStatementContext} {e : CryptoError MetaInvalidReason}
    (h : context.selectMetaLayout = .error e) : e ≠ .invalid .signatureInvalid := by
  rintro rfl
  unfold MetaStatementContext.selectMetaLayout MetaStatementContext.layoutV1Of MetaStatementContext.layoutV3Of at h
  dsimp only at h
  split_ifs at h
  · cases h
  · cases h
  · split at h
    · cases h
    · split at h <;> cases h
  · cases h

theorem checkedMetaLayout_error {context : MetaStatementContext} {e : CryptoError MetaInvalidReason}
    (h : context.checkedMetaLayout = .error e) : e ≠ .invalid .signatureInvalid := by
  rcases bind_error h with h | ⟨layout, -, h⟩
  · exact selectMetaLayout_error h
  rcases bind_error h with h | ⟨-, -, h⟩
  · rintro rfl
    obtain ⟨field, -, heq⟩ := Option.map_eq_some_iff.mp (stopAt_error h)
    cases heq
  · cases h

theorem metaAfterSignature_error {input : DistributedMetaStatementInput} {e : CryptoError MetaInvalidReason}
    (h : metaAfterSignature crypto input = .error e) : e ≠ .invalid .signatureInvalid := by
  rcases bind_error h with h | ⟨-, -, h⟩
  · rintro rfl
    obtain ⟨reason, hreason, heq⟩ := Option.map_eq_some_iff.mp (stopAt_error h)
    cases heq
    exact input.headStateReason_ne hreason
  rcases bind_error h with h | ⟨-, -, h⟩
  · rintro rfl
    obtain ⟨reason, hreason, heq⟩ := Option.map_eq_some_iff.mp (stopAt_error h)
    cases heq
    exact input.prevReason_ne hreason
  rcases bind_error h with h | ⟨layout, -, h⟩
  · exact checkedMetaLayout_error h
  · rw [hashHexOf_error h]
    simp

theorem retries_attestationFailure {history : ChainHistoryIndex} {context : Gossip.HeadAttestationContext}
    {fingerprint : KeyFingerprintHex} {e : Gossip.AttestationFailure}
    (h : Gossip.afterSignature crypto history context fingerprint = .error e) : retries (attestationFailure e) = false := by
  rcases bind_error h with h | ⟨-, -, h⟩
  · obtain ⟨reason, -, rfl⟩ := Option.map_eq_some_iff.mp (stopAt_error h)
    cases reason <;> rfl
  · rw [hashHexOf_error h]
    rfl

/-! ## The stages of an attempt -/

section Stages
variable {history : ChainHistoryIndex} {device : MemberWithDevice}

theorem verifyDistributedValue_enrolled (input : DistributedValueInput)
    (henrolled : Enrolled input.history input.context.writerUserId device)
    (hfingerprint : input.writerKeyFingerprintHex = device.keyFingerprintHex) :
    verifyDistributedValue crypto input = (do
      stopAt (((valueContextInvalidField input.context).or
        (submittedInvalidField input.signatureHex (input.predecessor.map (·.signedBytesHashHex)))).map .invalidInput)
      verifyEd25519Over crypto (buildValueSignedBytes input.context) input.signatureHex (keyOf device)
        (.invalid .signatureInvalid)
      valueAfterSignature crypto input : Except (CryptoError ValueInvalidReason) JsString) := by
  unfold verifyDistributedValue
  rw [hfingerprint, henrolled.form_eq, henrolled.import_eq]
  unfold verifyValueSignature
  cases valueContextInvalidField input.context with
  | some field => rfl
  | none => rfl

theorem verifyDistributedMetaStatement_enrolled (input : DistributedMetaStatementInput)
    (henrolled : Enrolled input.history input.context.authorUserId device)
    (hfingerprint : input.authorKeyFingerprintHex = device.keyFingerprintHex) {layout : MetaLayout}
    (hlayout : input.context.checkedMetaLayout = .ok layout) :
    verifyDistributedMetaStatement crypto input = (do
      stopAt ((submittedInvalidField input.signatureHex (input.predecessor.map (·.signedBytesHashHex))).map .invalidInput)
      verifyEd25519Over crypto (input.context.encodeMetaSignedBytes layout) input.signatureHex (keyOf device)
        (.invalid .signatureInvalid)
      metaAfterSignature crypto input : Except (CryptoError MetaInvalidReason) JsString) := by
  unfold verifyDistributedMetaStatement
  rw [hfingerprint, henrolled.form_eq, henrolled.import_eq]
  unfold verifyMetaStatementSignature
  rw [hlayout]
  rfl

theorem verifyDistributedHeadAttestation_enrolled {context : Gossip.HeadAttestationContext}
    (henrolled : Enrolled history context.attesterUserId device) (signatureHex : JsString) :
    Gossip.verifyDistributedHeadAttestation crypto history context device.keyFingerprintHex signatureHex = (do
      stopAt (((Gossip.contextInvalidField context).or (submittedInvalidField signatureHex none)).map .invalidInput)
      verifyEd25519Over crypto (Gossip.buildHeadAttestationSignedBytes context) signatureHex (keyOf device)
        (.invalid .signatureInvalid)
      Gossip.afterSignature crypto history context device.keyFingerprintHex :
        Except Gossip.AttestationFailure JsString) := by
  unfold Gossip.verifyDistributedHeadAttestation
  rw [henrolled.form_eq, henrolled.import_eq]
  unfold Gossip.verifyHeadAttestationSignature
  cases Gossip.contextInvalidField context with
  | some field => rfl
  | none => rfl

end Stages

/-! ## Each attempt is one test -/

section OneTests
variable {history : ChainHistoryIndex} {u : UserId} {l : List MemberWithDevice} (henrolled : ∀ d ∈ l, Enrolled history u d)
include henrolled

theorem keys (d : MemberWithDevice) (hd : d ∈ l) : decodeHex d.sigPubHex = some (keyOf d) := (henrolled d hd).key.1

theorem signs_iff (projectId : JsString) (submission : Submission) (d : MemberWithDevice) (hd : d ∈ l) :
    Verifies crypto (submission.signedBytes projectId u) submission.signatureHex d.sigPubHex ↔
      Signs crypto projectId submission d := by
  unfold Signs
  rw [(henrolled d hd).user]

theorem value_oneTest (projectId : JsString) (store : DataStore) (environmentId : EnvironmentId) (variableId : VariableId)
    (value : ValueInput) : OneTest retries (ensureValueSignature crypto ⟨projectId, history, store⟩ environmentId variableId value)
      (Signs crypto projectId (.value environmentId variableId value)) l := by
  unfold ensureValueSignature
  refine oneTest_after fun predecessor _ => ?_
  let input : MemberWithDevice → DistributedValueInput := fun d =>
    ⟨history, valueContext projectId environmentId variableId u value, d.keyFingerprintHex, value.signatureHex, predecessor⟩
  have hverdict := verifyEd25519Over_verdict crypto (keys henrolled)
    (buildValueSignedBytes (valueContext projectId environmentId variableId u value)) value.signatureHex
    (CryptoError.invalid ValueInvalidReason.signatureInvalid)
  have hstaged := oneTest_staged
    (((valueContextInvalidField (valueContext projectId environmentId variableId u value)).or
      (submittedInvalidField value.signatureHex (predecessor.map (·.signedBytesHashHex)))).map .invalidInput)
    (fun d => valueAfterSignature crypto (input d)) valueFailure hverdict (rfl : retries _ = true)
    fun d _ e he => retries_valueFailure (valueAfterSignature_error crypto he)
  refine oneTest_iff (signs_iff crypto henrolled projectId (.value environmentId variableId value))
    (oneTest_congr (fun d hd => ?_) hstaged)
  rw [(henrolled d hd).user]
  exact congrArg (Except.mapError valueFailure)
    (verifyDistributedValue_enrolled crypto (input d) (henrolled d hd) rfl)

theorem metaStatement_oneTest (projectId : JsString) (store : DataStore) (environmentId : EnvironmentId)
    (target : MetaStatementTarget) (statement : MetaStatementInput) (predecessor : Option MetaPredecessor) :
    OneTest retries
      (ensureMetaStatementSignature crypto ⟨projectId, history, store⟩ environmentId target statement predecessor)
      (fun d => Verifies crypto (metaContext projectId environmentId target u statement).signedBytes
        statement.signatureHex d.sigPubHex) l := by
  unfold ensureMetaStatementSignature
  refine oneTest_after fun _ _ => ?_
  let input : MemberWithDevice → DistributedMetaStatementInput := fun d =>
    ⟨history, metaContext projectId environmentId target u statement, d.keyFingerprintHex, statement.signatureHex,
      predecessor⟩
  cases hlayout : (metaContext projectId environmentId target u statement).checkedMetaLayout with
  | error e =>
    refine .before (metaFailure e) fun d hd => ?_
    rw [(henrolled d hd).user]
    unfold verifyDistributedMetaStatement
    dsimp only
    rw [hlayout]
    rfl
  | ok layout =>
    have hbytes : (metaContext projectId environmentId target u statement).signedBytes =
        (metaContext projectId environmentId target u statement).encodeMetaSignedBytes layout := by
      unfold MetaStatementContext.signedBytes
      rw [hlayout]
    rw [hbytes]
    have hverdict := verifyEd25519Over_verdict crypto (keys henrolled)
      ((metaContext projectId environmentId target u statement).encodeMetaSignedBytes layout) statement.signatureHex
      (CryptoError.invalid MetaInvalidReason.signatureInvalid)
    have hstaged := oneTest_staged
      ((submittedInvalidField statement.signatureHex (predecessor.map (·.signedBytesHashHex))).map .invalidInput)
      (fun d => metaAfterSignature crypto (input d)) metaFailure hverdict (rfl : retries _ = true)
      fun d _ e he => retries_metaFailure (metaAfterSignature_error crypto he)
    refine oneTest_congr (fun d hd => ?_) hstaged
    rw [(henrolled d hd).user]
    exact congrArg (Except.mapError metaFailure)
      (verifyDistributedMetaStatement_enrolled crypto (input d) (henrolled d hd) rfl hlayout)

theorem acceptMetaStatement_oneTest (projectId : JsString) (store : DataStore) (environmentId : EnvironmentId)
    (target : MetaStatementTarget) (operation : MetaOperation) (latestMetaVersion : Nat) (statement : MetaStatementInput) :
    OneTest retries
      (acceptMetaStatement crypto ⟨projectId, history, store⟩ environmentId target operation latestMetaVersion statement)
      (fun d => Verifies crypto (metaContext projectId environmentId target u statement).signedBytes
        statement.signatureHex d.sigPubHex) l := by
  unfold acceptMetaStatement
  refine oneTest_after fun _ _ => oneTest_after fun _ _ => oneTest_after fun _ _ => oneTest_after fun anchor _ =>
    oneTest_after fun _ _ => oneTest_after fun _ _ => ?_
  exact metaStatement_oneTest crypto henrolled projectId store environmentId target statement _

theorem headAttestation_oneTest (projectId : JsString) (store : DataStore) (input : HeadAttestationSubmissionInput) :
    OneTest retries (verifyHeadAttestation crypto ⟨projectId, history, store⟩ input)
      (Signs crypto projectId (.headAttestation input)) l := by
  let context := attestationContext projectId u input
  have hverdict := verifyEd25519Over_verdict crypto (keys henrolled) (Gossip.buildHeadAttestationSignedBytes context)
    input.signatureHex (CryptoError.invalid Gossip.AttestationInvalidReason.signatureInvalid)
  have hstaged := oneTest_staged
    (((Gossip.contextInvalidField context).or (submittedInvalidField input.signatureHex none)).map .invalidInput)
    (fun d => Gossip.afterSignature crypto history context d.keyFingerprintHex) attestationFailure hverdict
    (rfl : retries _ = true) fun d _ e he => retries_attestationFailure crypto he
  refine oneTest_iff (signs_iff crypto henrolled projectId (.headAttestation input))
    (oneTest_congr (fun d hd => ?_) hstaged)
  unfold verifyHeadAttestation
  rw [(henrolled d hd).user]
  exact congrArg (Except.mapError attestationFailure)
    (verifyDistributedHeadAttestation_enrolled crypto (henrolled d hd) input.signatureHex)

theorem firstWrap_oneTest (projectId : JsString) (store : DataStore) (environmentId : EnvironmentId) (first : DekWrapInput) :
    OneTest retries (verifyFirstWrap crypto ⟨projectId, history, store⟩ environmentId first)
      (Signs crypto projectId (.wraps environmentId first)) l := by
  refine oneTest_iff (signs_iff crypto henrolled projectId (.wraps environmentId first)) ?_
  have hverdict := verifyEd25519Over_verdict crypto (keys henrolled)
    (buildDekWrapSignatureBytes (wrapContext projectId environmentId u first)) first.signatureHex
    (CryptoError.invalid ())
  have hstaged := oneTest_staged ((wrapContext projectId environmentId u first).contextInvalidField.map .invalidInput)
    (fun d => (.ok (keyOf d) : Except (CryptoError Unit) Bytes)) wrapFailure hverdict (rfl : retries _ = true) fun d _ e he => nomatch he
  refine oneTest_congr (fun d hd => ?_) hstaged
  obtain ⟨hkey, hlength⟩ := (henrolled d hd).key
  unfold verifyFirstWrap importSignerKey importSigningPublicKey
  rw [hkey]
  dsimp only
  rw [if_neg (not_not_intro hlength)]
  unfold verifyOneWrapSignature verifyDekWrapSignature
  rw [(henrolled d hd).user]
  change (Except.mapError wrapFailure _ >>= fun _ => Except.ok (keyOf d)) = _
  cases (wrapContext projectId environmentId u first).contextInvalidField with
  | some field => rfl
  | none =>
    change (Except.mapError wrapFailure (verifyEd25519Over _ _ _ _ _) >>= fun _ => Except.ok (keyOf d)) =
      (verifyEd25519Over _ _ _ _ _ >>= fun _ => Except.ok (keyOf d)).mapError wrapFailure
    cases verifyEd25519Over crypto (buildDekWrapSignatureBytes (wrapContext projectId environmentId u first))
      first.signatureHex (keyOf d) (CryptoError.invalid ()) <;> rfl

theorem attempt_oneTest (projectId : JsString) (store : DataStore) (submission : Submission) :
    OneTest retries (attempt crypto ⟨projectId, history, store⟩ submission) (Signs crypto projectId submission) l := by
  cases submission with
  | value environmentId variableId value =>
    exact oneTest_map _ (value_oneTest crypto henrolled projectId store environmentId variableId value)
  | createdVariable environmentId variableId statement =>
    exact oneTest_map _ (oneTest_iff (signs_iff crypto henrolled projectId (.createdVariable environmentId variableId statement))
      (metaStatement_oneTest crypto henrolled projectId store environmentId (.variable variableId) statement none))
  | metaStatement environmentId target operation latestMetaVersion statement =>
    exact oneTest_map _ (oneTest_iff
      (signs_iff crypto henrolled projectId (.metaStatement environmentId target operation latestMetaVersion statement))
      (acceptMetaStatement_oneTest crypto henrolled projectId store environmentId target operation latestMetaVersion statement))
  | headAttestation input => exact oneTest_map _ (headAttestation_oneTest crypto henrolled projectId store input)
  | wraps environmentId first => exact oneTest_map _ (firstWrap_oneTest crypto henrolled projectId store environmentId first)

end OneTests

/-! ## The devices of a member -/

theorem registered_shaped {entries : List Json} {k : JsString × JsString} (h : k ∈ registeredKeys entries) :
    KeysShaped k.1 k.2 := by
  obtain ⟨op, hop, hk⟩ := List.mem_filterMap.mp h
  have hshaped := operationsIn_shaped op hop
  cases op with
  | genesis p => cases hk; exact hshaped
  | addMember p => cases hk; exact hshaped.2.1
  | addDevice p => cases hk; exact hshaped.1
  | _ => cases hk

theorem mem_activeDevicesOf {member : ChainMember} {d : MemberWithDevice} :
    d ∈ activeDevicesOf member ↔ ∃ device ∈ member.devices.values, withDevice member device = d := by
  unfold activeDevicesOf
  simp only [List.mem_map, (List.perm_insertionSort _ _).mem_iff]

section Member
variable {crypto : Crypto} {entries : List Json} {st : ChainState} {index : ChainHistoryIndex}
  (h : verifyChainWithHistory crypto entries = .ok (st, index)) (hdistinct : FingerprintsDistinct crypto entries)
  {u : UserId} {member : ChainMember} (hmember : st.members.get? u = some member)
include h hmember

theorem device_of_member {d : MemberWithDevice} (hd : d ∈ activeDevicesOf member) :
    ∃ device, withDevice member device = d ∧ member.userId = u ∧
      member.devices.get? device.keyFingerprintHex = some device ∧
      userFingerprintHex crypto device.encPubHex device.sigPubHex = device.keyFingerprintHex := by
  obtain ⟨device, hdevice, rfl⟩ := mem_activeDevicesOf.mp hd
  obtain ⟨loop, hrun, rfl, rfl⟩ := verified_run h
  have hkeyed : WellKeyed crypto loop.state := (runs_sound hrun).keyed
  obtain ⟨fp, hfp⟩ := (OrderedMap.mem_values _ _).mp hdevice
  obtain ⟨hplace, hfingerprint⟩ := hkeyed.device u member fp device hmember hfp
  subst hplace
  exact ⟨device, rfl, hkeyed.member u member hmember, hfp, hfingerprint⟩

include hdistinct

theorem keys_of_member : ∃ s, KeysUnique (registeredKeys entries) s ∧ s.members = st.members := by
  obtain ⟨loop, hrun, rfl, rfl⟩ := verified_run h
  exact ⟨loop.state, runs_keysUnique hrun List.prefix_rfl hdistinct, rfl⟩

theorem enrolled_of_member (hsha : ∀ bytes, (crypto.sha256 bytes).length = 32) (d : MemberWithDevice)
    (hd : d ∈ activeDevicesOf member) : Enrolled index u d := by
  obtain ⟨device, rfl, huser, hdevice, hfingerprint⟩ := device_of_member h hmember hd
  obtain ⟨s, hkeys, hmembers⟩ := keys_of_member h hdistinct hmember
  have hcurrent : currentDevice s (u, device.keyFingerprintHex) = some device := by
    unfold currentDevice
    rw [hmembers, hmember, Option.bind_some, hdevice]
  refine ⟨huser, sigKey_of_current h hdistinct hmember hdevice, ?_, ?_⟩
  · exact (registered_shaped (hkeys.registered _ _ hcurrent)).sig
  · change isHexText fingerprintBytes device.keyFingerprintHex = true
    rw [← hfingerprint]
    unfold userFingerprintHex isHexText
    rw [decodeHex_encodeHex, encodeHex_length]
    dsimp only
    rw [List.length_take, hsha]
    rfl

/-- One device at most signed: two that did share their key, and so their place. -/
theorem signer_unique (hexclusive : VerifiesUnderOneKey crypto) (projectId : JsString) (submission : Submission)
    {d d' : MemberWithDevice} (hd : d ∈ activeDevicesOf member) (hd' : d' ∈ activeDevicesOf member)
    (hsigns : Signs crypto projectId submission d) (hsigns' : Signs crypto projectId submission d') : d = d' := by
  obtain ⟨device, rfl, huser, hdevice, -⟩ := device_of_member h hmember hd
  obtain ⟨device', rfl, -, hdevice', -⟩ := device_of_member h hmember hd'
  obtain ⟨s, hkeys, hmembers⟩ := keys_of_member h hdistinct hmember
  have hcurrent : ∀ {device : ChainDevice}, member.devices.get? device.keyFingerprintHex = some device →
      currentDevice s (u, device.keyFingerprintHex) = some device := by
    intro device hdevice
    unfold currentDevice
    rw [hmembers, hmember, Option.bind_some, hdevice]
  obtain ⟨key, bytes, signature, hkey, hbytes, hsignature, hverify⟩ := hsigns
  obtain ⟨key', bytes', signature', hkey', hbytes', hsignature', hverify'⟩ := hsigns'
  obtain rfl := Option.some.inj (hbytes.symm.trans hbytes')
  obtain rfl := Option.some.inj (hsignature.symm.trans hsignature')
  obtain rfl := hexclusive _ _ _ _ hverify hverify'
  have hsame := hkeys.sig.unique _ _ _ _ (hcurrent hdevice) (hcurrent hdevice') (decodeHex_inj hkey hkey')
  have hfingerprint : device.keyFingerprintHex = device'.keyFingerprintHex := congrArg Prod.snd hsame
  rw [hfingerprint, hdevice'] at hdevice
  rw [Option.some.inj hdevice]

end Member

/-- Among candidates that differ in one test only, the search accepts what an attempt accepts. -/
theorem withSigningDevice_ok_iff {α : Type} {member : ChainMember} {attempts : MemberWithDevice → Except AttemptFailure α}
    {passes : MemberWithDevice → Prop} (hone : OneTest retries attempts passes (activeDevicesOf member))
    (hunique : ∀ d ∈ activeDevicesOf member, ∀ d' ∈ activeDevicesOf member, passes d → passes d' → d = d')
    (device : MemberWithDevice) (value : α) : withSigningDevice member attempts = .ok (device, value) ↔
      device ∈ activeDevicesOf member ∧ attempts device = .ok value := by
  unfold withSigningDevice tryCandidates
  split_ifs with hempty
  · rw [List.isEmpty_iff] at hempty
    rw [hempty]
    exact ⟨fun hok => (nomatch hok), fun hmem => (nomatch hmem.1)⟩
  · exact hone.search_ok_iff hunique _

/-- The search finds the one device that signed, whatever the order. -/
theorem signing_device_resolution (crypto : Crypto) (entries : List Json) (st : ChainState) (index : ChainHistoryIndex)
    (projectId : JsString) (store : DataStore) (u : UserId) (member : ChainMember) (submission : Submission)
    (hsha : ∀ bytes, (crypto.sha256 bytes).length = 32) (hexclusive : VerifiesUnderOneKey crypto)
    (h : verifyChainWithHistory crypto entries = .ok (st, index)) (hdistinct : FingerprintsDistinct crypto entries)
    (hmember : st.members.get? u = some member) :
    let attempts := attempt crypto ⟨projectId, index, store⟩ submission
    let devices := activeDevicesOf member
    (∀ device accepted, withSigningDevice member attempts = .ok (device, accepted) ↔
      device ∈ devices ∧ attempts device = .ok accepted) ∧
    (∀ device accepted, withSigningDevice member attempts = .ok (device, accepted) →
      Signs crypto projectId submission device ∧
        ∀ other ∈ devices, Signs crypto projectId submission other → other = device) ∧
    (∀ candidates, candidates.Perm devices → tryCandidates attempts candidates = withSigningDevice member attempts) ∧
    ∀ device ∈ devices, ∀ signer ∈ devices, Signs crypto projectId submission signer →
      ∀ failure, attempts device = .error failure → retries failure = false → attempts signer = .error failure := by
  intro attempts devices
  have hunique : ∀ d ∈ devices, ∀ d' ∈ devices, Signs crypto projectId submission d →
      Signs crypto projectId submission d' → d = d' :=
    fun d hd d' hd' => signer_unique h hdistinct hmember hexclusive projectId submission hd hd'
  have hone : OneTest retries attempts (Signs crypto projectId submission) devices :=
    attempt_oneTest crypto (enrolled_of_member h hdistinct hmember hsha) projectId store submission
  have hok : ∀ device accepted, withSigningDevice member attempts = .ok (device, accepted) ↔
      device ∈ devices ∧ attempts device = .ok accepted := withSigningDevice_ok_iff hone hunique
  refine ⟨hok, fun device accepted haccepted => ?_, fun candidates hperm => ?_, fun device hd signer hs hsigns failure herror hfinal => ?_⟩
  · obtain ⟨hd, hattempt⟩ := (hok device accepted).mp haccepted
    have hsigns := hone.passes_of_ok hd hattempt
    exact ⟨hsigns, fun other hother hsigns' => hunique other hother device hd hsigns' hsigns⟩
  · unfold withSigningDevice tryCandidates
    by_cases hempty : devices = []
    · have hcandidates : candidates = [] := List.perm_nil.mp (hempty ▸ hperm)
      rw [hcandidates, show activeDevicesOf member = [] from hempty]
    · have hcandidates : candidates ≠ [] := by
        rintro rfl
        exact hempty (List.nil_perm.mp hperm)
      rw [if_neg (by simpa using hcandidates), if_neg (by simpa using hempty)]
      exact hone.search_perm hunique hperm hempty _ _
  · by_cases hpass : Signs crypto projectId submission device
    · rw [hunique signer hs device hd hsigns hpass]
      exact herror
    · exact hone.final_of_fails hd hs hpass herror hfinal

/-! ## An example

Alice's second device, added with the cap reader, attests the head after it was added. -/

/-- The messages are signed with the key, beside what `crypto` verifies. -/
def alsoSigned (crypto : Crypto) (key : ExampleKey) (signed : List (Option Bytes × JsString)) : Crypto where
  sha256 := crypto.sha256
  ed25519Verify publicKey signedBytes signature :=
    crypto.ed25519Verify publicKey signedBytes signature || (key.sig = encodeHex publicKey &&
      signed.any fun pair => pair.1 = some signedBytes && pair.2 = encodeHex signature)

theorem keptCrypto_signer {key signedBytes signature : Bytes} (h : keptCrypto.ed25519Verify key signedBytes signature = true) :
    notaryKey.sig = encodeHex key ∧ ∃ entry ∈ keptEntries, entry.signatureHex = encodeHex signature := by
  unfold keptCrypto signedBy at h
  simp only [List.any_eq_true, Bool.and_eq_true, decide_eq_true_eq, List.mem_singleton, decodeHex_eq_some_iff] at h
  obtain ⟨entry, hentry, ⟨hsignature, -⟩, pair, rfl, -, hkey⟩ := h
  exact ⟨hkey, entry, hentry, hsignature⟩

theorem alsoSigned_exclusive {signed : List (Option Bytes × JsString)}
    (hfresh : ∀ entry ∈ keptEntries, ∀ pair ∈ signed, entry.signatureHex ≠ pair.2) :
    VerifiesUnderOneKey (alsoSigned keptCrypto spareKey signed) := by
  have hsigner : ∀ {key signedBytes signature},
      (alsoSigned keptCrypto spareKey signed).ed25519Verify key signedBytes signature = true →
      keptCrypto.ed25519Verify key signedBytes signature = true ∨
        spareKey.sig = encodeHex key ∧ ∃ pair ∈ signed, pair.2 = encodeHex signature := by
    intro key signedBytes signature h
    simp only [alsoSigned, Bool.or_eq_true, Bool.and_eq_true, decide_eq_true_eq, List.any_eq_true] at h
    rcases h with h | ⟨hkey, pair, hpair, -, hsignature⟩
    · exact Or.inl h
    · exact Or.inr ⟨hkey, pair, hpair, hsignature⟩
  intro key key' signedBytes signature h h'
  rcases hsigner h with h | ⟨hkey, pair, hpair, hsignature⟩ <;> rcases hsigner h' with h' | ⟨hkey', pair', hpair', hsignature'⟩
  · exact encodeHex_inj ((keptCrypto_signer h).1.symm.trans (keptCrypto_signer h').1)
  · obtain ⟨-, entry, hentry, hsame⟩ := keptCrypto_signer h
    exact absurd (hsame.trans hsignature'.symm) (hfresh entry hentry pair' hpair')
  · obtain ⟨-, entry, hentry, hsame⟩ := keptCrypto_signer h'
    exact absurd (hsame.trans hsignature.symm) (hfresh entry hentry pair hpair)
  · exact encodeHex_inj (hkey.symm.trans hkey')

theorem alsoSigned_eq (signed : List (Option Bytes × JsString)) : alsoSigned keptCrypto spareKey signed =
    alsoSigned ⟨Sha256.lookup [], verifiesHex [notaryKey] keptEntries⟩ spareKey signed := by
  rw [keptCrypto, signedBy_eq_lookup _ _ []]

def spareAttestation : HeadAttestationSubmissionInput where
  suite := suiteId
  chainHeadHashHex := hex 32 0x7af2bb3fe64b31496a2960936fd2309fbf0218eda432df5719cab47bb78f6066
  chainHeadSeq := 2
  signatureHex := hex signatureBytes
    0xc6a16bc9bc122ee59fee0cdfac022201abd80c7711e64cea19f07f7a669994a48ebc6f4932fdb57dd9888dd669d5a187eccb36054fea4299ef2ddc19f05b1804

def attestedCrypto : Crypto :=
  alsoSigned keptCrypto spareKey [(Submission.signedBytes (lit "project") (lit "alice") (.headAttestation spareAttestation),
    spareAttestation.signatureHex)]

def attestedProject (index : ChainHistoryIndex) : Project :=
  ⟨lit "project", index, ⟨fun _ _ _ => none, fun _ _ _ => none, fun _ _ => none⟩⟩

/-- Alice and her devices, where the chain is accepted. -/
def withAlice (crypto : Crypto) (check : ChainHistoryIndex → ChainMember → Bool) : Bool :=
  (verifyChainWithHistory crypto (keptChain.take 2)).toOption.any fun verified =>
    (verified.1.members.get? (lit "alice")).any fun member => check verified.2 member

theorem withAlice_iff {crypto : Crypto} {check : ChainHistoryIndex → ChainMember → Bool} : withAlice crypto check = true ↔
    ∃ st index member, verifyChainWithHistory crypto (keptChain.take 2) = .ok (st, index) ∧
      st.members.get? (lit "alice") = some member ∧ check index member = true := by
  unfold withAlice
  cases verifyChainWithHistory crypto (keptChain.take 2) with
  | error e => simp [Except.toOption]
  | ok verified => simp [Except.toOption, Option.any_eq_true, Prod.ext_iff]

set_option maxRecDepth 100000 in
theorem spareAttestation_accepted : withAlice attestedCrypto (fun index member =>
      (activeDevicesOf member).length = 2 && (withSigningDevice member (attempt attestedCrypto (attestedProject index)
        (.headAttestation spareAttestation))).toOption.any fun found => found.1.keyFingerprintHex = spareKey.fingerprint) = true ∧
    FingerprintsDistinct attestedCrypto (keptChain.take 2) ∧
    ∀ entry ∈ keptEntries, entry.signatureHex ≠ spareAttestation.signatureHex := by
  rw [attestedCrypto, alsoSigned_eq]
  decide +kernel

/-- The attestation is found to be the second device's, in whatever order the two are tried. -/
theorem signing_device_resolution_example : ∃ st index member device accepted,
    verifyChainWithHistory attestedCrypto (keptChain.take 2) = .ok (st, index) ∧
    st.members.get? (lit "alice") = some member ∧ (activeDevicesOf member).length = 2 ∧
    device.keyFingerprintHex = spareKey.fingerprint ∧
    Signs attestedCrypto (lit "project") (.headAttestation spareAttestation) device ∧
    (∀ other ∈ activeDevicesOf member,
      Signs attestedCrypto (lit "project") (.headAttestation spareAttestation) other → other = device) ∧
    ∀ candidates, candidates.Perm (activeDevicesOf member) →
      tryCandidates (attempt attestedCrypto (attestedProject index) (.headAttestation spareAttestation)) candidates =
        .ok (device, accepted) := by
  obtain ⟨haccepted, hdistinct, hfresh⟩ := spareAttestation_accepted
  obtain ⟨st, index, member, h, hmember, hcheck⟩ := withAlice_iff.mp haccepted
  rw [Bool.and_eq_true, decide_eq_true_eq] at hcheck
  obtain ⟨hlength, hcheck⟩ := hcheck
  cases hfound : withSigningDevice member (attempt attestedCrypto (attestedProject index) (.headAttestation spareAttestation)) with
  | error e => rw [hfound] at hcheck; cases hcheck
  | ok found =>
    rw [hfound] at hcheck
    obtain ⟨-, hsigns, hperm, -⟩ := signing_device_resolution attestedCrypto (keptChain.take 2) st index (lit "project")
      (attestedProject index).store (lit "alice") member (.headAttestation spareAttestation) Sha256.length_sha256
      (alsoSigned_exclusive (by simpa using hfresh)) h hdistinct hmember
    obtain ⟨hsigned, honly⟩ := hsigns found.1 found.2 hfound
    exact ⟨st, index, member, found.1, found.2, h, hmember, hlength, of_decide_eq_true hcheck, hsigned, honly,
      fun candidates hcandidates => (hperm candidates hcandidates).trans hfound⟩

end Maruhi.Signing
