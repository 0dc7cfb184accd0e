import Maruhi.Signing.Validate

/-!
# Head attestations (`head-attestation.ts`, `chain-sync.ts`, `attestation.ts`)

What a client makes of the attestations that come with a chain.
-/

open Text

namespace Maruhi.Gossip

open Chain Signing

/-! ## The signed bytes -/

structure HeadAttestationContext where
  suite : JsString
  projectId : JsString
  attesterUserId : UserId
  chainHeadHashHex : JsString
  chainHeadSeq : Nat

def contextInvalidField (context : HeadAttestationContext) : Option JsString :=
  if context.suite.isEmpty then some (lit "context suite")
  else if context.projectId.isEmpty then some (lit "context projectId")
  else if context.attesterUserId.isEmpty then some (lit "context attesterUserId")
  else if !isHexText sha256Bytes context.chainHeadHashHex then some (lit "context chainHeadHashHex")
  else if context.chainHeadSeq > Json.maxSafeInteger || context.chainHeadSeq < 1 then some (lit "context chainHeadSeq")
  else none

/-- None where `encodeLengthPrefixed` throws. -/
def buildHeadAttestationSignedBytes (context : HeadAttestationContext) : Option Bytes :=
  encodeLengthPrefixed [
    .str (context.suite ++ lit "/head-attestation"),
    .str context.projectId,
    .str context.attesterUserId,
    .str context.chainHeadHashHex,
    .num context.chainHeadSeq]

inductive AttestationInvalidReason
  | attesterUnknown
  | signatureInvalid
  | chainHeadFuture
  | chainHeadMismatch
  | attesterNotMemberAtHead
  | attesterKeyMismatchAtHead
  deriving DecidableEq, Repr

abbrev AttestationFailure := CryptoError AttestationInvalidReason

/-! ## The signature -/

variable (crypto : Crypto)

def verifyHeadAttestationSignature (context : HeadAttestationContext) (signatureHex : JsString) (publicKey : Bytes) :
    Except AttestationFailure Unit := do
  stopAt ((contextInvalidField context).map .invalidInput)
  verifyEd25519Over crypto (buildHeadAttestationSignedBytes context) signatureHex publicKey (.invalid .signatureInvalid)

/-! ## The attested head -/

/-- `HEAD_ATTESTATION_REASONS`; no scope is asked for. -/
def headAttestationReason : HeadReason → AttestationInvalidReason
  | .chainHeadFuture => .chainHeadFuture
  | .chainHeadMismatch => .chainHeadMismatch
  | .notMemberAtHead => .attesterNotMemberAtHead
  | .keyMismatchAtHead => .attesterKeyMismatchAtHead
  | .roleInsufficientAtHead => .attesterNotMemberAtHead
  | .outOfScopeAtHead => .attesterNotMemberAtHead

/-- The hash of the signed bytes, where the attestation verifies. -/
def verifyDistributedHeadAttestation (history : ChainHistoryIndex) (context : HeadAttestationContext)
    (attesterKeyFingerprintHex : KeyFingerprintHex) (signatureHex : JsString) : Except AttestationFailure JsString := do
  stopAt (((contextInvalidField context).or
    (distributedInputInvalidField attesterKeyFingerprintHex (lit "attesterKeyFingerprintHex") signatureHex none)).map
      .invalidInput)
  let publicKey ← importActorKeyByFingerprint history context.attesterUserId attesterKeyFingerprintHex
    (.invalid .attesterUnknown)
  verifyHeadAttestationSignature crypto context signatureHex publicKey
  stopAt ((headAuthorizationReason history context.chainHeadSeq context.chainHeadHashHex context.attesterUserId
    attesterKeyFingerprintHex .reader none).map fun reason => .invalid (headAttestationReason reason))
  hashHexOf crypto (buildHeadAttestationSignedBytes context)

/-! ## Chain synchronization -/

/-- An attestation as a response brings it; its suite is the only one there is. -/
structure DistributedAttestation where
  attesterUserId : UserId
  attesterKeyFingerprintHex : KeyFingerprintHex
  chainHeadHashHex : JsString
  chainHeadSeq : Nat
  signatureHex : JsString
  fingerprint : isHexText fingerprintBytes attesterKeyFingerprintHex = true
  hash : isHexText sha256Bytes chainHeadHashHex = true
  signature : isHexText signatureBytes signatureHex = true
  deriving DecidableEq

structure ChainResponse where
  entries : List Json
  headSeq : Nat
  headHashHex : JsString
  attestations : List DistributedAttestation

structure VerifiedProject where
  projectId : JsString
  state : ChainState
  history : ChainHistoryIndex
  entries : List Json
  attestations : List DistributedAttestation

inductive EvidenceKind
  | headMismatch
  | unresolvedAfterResync
  deriving DecidableEq, Repr

structure AttestationEvidenceRecord where
  attestation : DistributedAttestation
  headSeq : Nat
  headHashHex : JsString
  /-- Empty where the view has no such entry. -/
  entryHashAtAttestedSeq : JsString
  kind : EvidenceKind

inductive SyncFailure
  | transport
  | chainInvalid
  | emptyChain
  | genesisHashFailed
  | genesisMismatch
  | headContradiction
  | notAnExtension
  | attestationEvidence (records : List AttestationEvidenceRecord)
  | died

def verifyChainSnapshot (projectId : JsString) (response : ChainResponse) : Except SyncFailure VerifiedProject :=
  match verifyChainWithHistory crypto response.entries with
  | .error _ => .error .chainInvalid
  | .ok (state, history) =>
    match response.entries.head? with
    | none => .error .emptyChain
    | some genesis =>
      match (checkPayloadShape genesis).bind (computeChainEntryHash crypto) with
      | none => .error .genesisHashFailed
      | some genesisHash =>
        if genesisHash ≠ projectId then .error .genesisMismatch
        else if state.headSeq ≠ response.headSeq || state.headHashHex ≠ response.headHashHex then .error .headContradiction
        else .ok ⟨projectId, state, history, response.entries, response.attestations⟩

/-- None where no response came. -/
def syncProject (projectId : JsString) : Option ChainResponse → Except SyncFailure VerifiedProject
  | none => .error .transport
  | some response => verifyChainSnapshot crypto projectId response

def ensureExtensionOf (previous next : VerifiedProject) : Except SyncFailure VerifiedProject :=
  if next.state.headSeq < previous.state.headSeq ||
      next.history.entryHashAt previous.state.headSeq ≠ some previous.state.headHashHex then .error .notAnExtension
  else .ok next

def resyncExtended (resync : Except SyncFailure VerifiedProject) (previous : VerifiedProject) :
    Except SyncFailure VerifiedProject :=
  resync.bind (ensureExtensionOf previous)

/-! ## Reconciliation -/

inductive MatchOutcome
  | ok
  | skip
  | future
  | mismatch
  deriving DecidableEq, Repr

def contextOf (projectId : JsString) (attestation : DistributedAttestation) : HeadAttestationContext where
  suite := suiteId
  projectId := projectId
  attesterUserId := attestation.attesterUserId
  chainHeadHashHex := attestation.chainHeadHashHex
  chainHeadSeq := attestation.chainHeadSeq

/-- None where the verification throws. -/
def matchAttestation (view : VerifiedProject) (attestation : DistributedAttestation) : Option MatchOutcome :=
  match view.history.memberStateAt attestation.attesterUserId view.state.headSeq with
  | none => some .skip
  | some current =>
    if !current.devices.has attestation.attesterKeyFingerprintHex then some .skip
    else match verifyDistributedHeadAttestation crypto view.history (contextOf view.projectId attestation)
        attestation.attesterKeyFingerprintHex attestation.signatureHex with
      | .ok _ => some .ok
      | .error .thrown => none
      | .error (.invalid .chainHeadFuture) => some .future
      | .error (.invalid .chainHeadMismatch) => some .mismatch
      | .error _ => some .skip

structure Classified where
  evidence : List DistributedAttestation
  future : List DistributedAttestation

def Classified.push (classified : Classified) (attestation : DistributedAttestation) : MatchOutcome → Classified
  | .mismatch => { classified with evidence := classified.evidence ++ [attestation] }
  | .future => { classified with future := classified.future ++ [attestation] }
  | _ => classified

def classifyAll (view : VerifiedProject) (attestations : List DistributedAttestation) : Option Classified :=
  attestations.foldlM (fun classified attestation => (matchAttestation crypto view attestation).map (classified.push attestation))
    ⟨[], []⟩

def evidenceRecordOf (view : VerifiedProject) (kind : EvidenceKind) (attestation : DistributedAttestation) :
    AttestationEvidenceRecord where
  attestation := attestation
  headSeq := view.state.headSeq
  headHashHex := view.state.headHashHex
  entryHashAtAttestedSeq := (view.history.entryHashAt attestation.chainHeadSeq).getD []
  kind := kind

/-- Every wire field, with `#` between. -/
def wireKey (attestation : DistributedAttestation) : JsString :=
  suiteId ++ lit "#" ++ attestation.attesterUserId ++ lit "#" ++ attestation.attesterKeyFingerprintHex ++ lit "#" ++
    attestation.chainHeadHashHex ++ lit "#" ++ decimal attestation.chainHeadSeq ++ lit "#" ++ attestation.signatureHex

/-- The first attestation of each key, of those that are not seen yet. -/
def firstOfEachKey (seen : List JsString) : List DistributedAttestation → List DistributedAttestation
  | [] => []
  | attestation :: rest =>
    let key := wireKey attestation
    if seen.contains key then firstOfEachKey seen rest else attestation :: firstOfEachKey (key :: seen) rest

attribute [grind =] firstOfEachKey

def reconcileDistributedAttestations (view : VerifiedProject) (resync : Except SyncFailure VerifiedProject) :
    Except SyncFailure VerifiedProject :=
  match classifyAll crypto view view.attestations with
  | none => .error .died
  | some first =>
    if !first.evidence.isEmpty then
      .error (.attestationEvidence (first.evidence.map (evidenceRecordOf view .headMismatch)))
    else if first.future.isEmpty then .ok view
    else do
      let advanced ← resyncExtended resync view
      match classifyAll crypto advanced (firstOfEachKey [] (advanced.attestations ++ first.future)) with
      | none => .error .died
      | some second =>
        if !second.evidence.isEmpty || !second.future.isEmpty then
          .error (.attestationEvidence (second.evidence.map (evidenceRecordOf advanced .headMismatch) ++
            second.future.map (evidenceRecordOf advanced .unresolvedAfterResync)))
        else .ok advanced

end Maruhi.Gossip
