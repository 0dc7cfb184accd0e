import Maruhi.Chain.Device
import Maruhi.Lib.Search
import Maruhi.Lib.TextOrder
import Maruhi.Gossip.Attestation
import Maruhi.Signing.Verify
import Maruhi.Wraps.Accept

/-!
# The signing device (`data-guards.ts`, `verify-value.ts`, `verify-meta.ts`, `attestation-accept.ts`, `dek-wraps.ts`)

The server finds the device that signed a request by trying the member's devices, and each trial is an acceptance.
-/

open Text

namespace Maruhi.Signing
open Chain
open Wraps (DekWrapInput DekWrapReason)

/-! ## Rejections -/

inductive ValueSignatureRejectReason
  | signatureInvalid
  | chainHeadUnknown
  | chainHeadStateMismatch
  deriving DecidableEq, Repr

inductive MetaStatementRejectReason
  | signatureInvalid
  | chainHeadUnknown
  | chainHeadStateMismatch
  | layoutRegression
  | unsupportedLayout
  deriving DecidableEq, Repr

inductive ManifestRejectReason
  | signatureInvalid
  | chainHeadUnknown
  | chainHeadStateMismatch
  | manifestDigestMismatch
  | manifestEpochMismatch
  | checkpointBindingMismatch
  | checkpointEquivocation
  | checkpointRegressed
  deriving DecidableEq, Repr

inductive DekWrapRejectReason
  | signatureInvalid
  | ofSet (reason : DekWrapReason)
  deriving DecidableEq, Repr

inductive SchemaDescriptionRejectReason
  | tooLong
  | controlCharacters
  deriving DecidableEq, Repr

inductive DataRejection
  | valueRejected (reason : ValueSignatureRejectReason)
  | metaRejected (reason : MetaStatementRejectReason)
  | manifestRejected (reason : ManifestRejectReason)
  | attestationRejected (reason : ValueSignatureRejectReason)
  | dekWrapRejected (reason : DekWrapRejectReason)
  | payloadMismatch (field : JsString)
  | limitExceeded (resource : JsString) (limit : Nat)
  | metaVersionConflict (currentMetaVersion : Nat)
  | descriptionRejected (reason : SchemaDescriptionRejectReason)
  deriving DecidableEq, Repr

/-- A rejection, or a defect. -/
inductive AttemptFailure
  | rejected (rejection : DataRejection)
  | died
  deriving DecidableEq, Repr

def isSignatureInvalidRejection : DataRejection → Bool
  | .valueRejected reason => reason = .signatureInvalid
  | .metaRejected reason => reason = .signatureInvalid
  | .manifestRejected reason => reason = .signatureInvalid
  | .attestationRejected reason => reason = .signatureInvalid
  | .dekWrapRejected reason => reason = .signatureInvalid
  | _ => false

/-! ## Devices -/

structure MemberWithDevice extends ChainMember where
  device : ChainDevice
  keyFingerprintHex : KeyFingerprintHex
  encPubHex : JsString
  sigPubHex : JsString
  permission : EffectivePermission
  deriving DecidableEq

def withDevice (member : ChainMember) (device : ChainDevice) : MemberWithDevice where
  toChainMember := member
  device := device
  keyFingerprintHex := device.keyFingerprintHex
  encPubHex := device.encPubHex
  sigPubHex := device.sigPubHex
  permission := effectivePermissionOf member device.toDeviceCap

def activeDevicesOf (member : ChainMember) : List MemberWithDevice :=
  (member.devices.values.insertionSort fun a b => a.keyFingerprintHex ≤ b.keyFingerprintHex).map (withDevice member)

/-- Another device may be tried. -/
def retries : AttemptFailure → Bool
  | .rejected rejection => isSignatureInvalidRejection rejection
  | .died => false

/-- The loop of `withSigningDevice` over the candidates. -/
def tryCandidates {α : Type} (attempt : MemberWithDevice → Except AttemptFailure α) (candidates : List MemberWithDevice) :
    Except AttemptFailure (MemberWithDevice × α) :=
  if candidates.isEmpty then .error .died
  else Search.search retries attempt (.rejected (.valueRejected .signatureInvalid)) candidates

def withSigningDevice {α : Type} (member : ChainMember) (attempt : MemberWithDevice → Except AttemptFailure α) :
    Except AttemptFailure (MemberWithDevice × α) := tryCandidates attempt (activeDevicesOf member)

/-! ## What the attempts read -/

structure ValueInput where
  suite : JsString
  epoch : Nat
  version : Nat
  nonceHex : JsString
  ciphertextHex : JsString
  prevValueSigHashHex : JsString
  chainHeadHashHex : JsString
  chainHeadSeq : Nat
  signatureHex : JsString

structure MetaVariableSchemaInput where
  varType : JsString
  required : Bool
  description : JsString
  /-- None where the field is missing, `some none` where it is null. -/
  maxAgeDays : Option (Option Nat)

structure MetaStatementInput where
  suite : JsString
  name : JsString
  status : MetaStatementStatus
  layoutVersion : Option Nat
  schema : Option MetaVariableSchemaInput
  metaVersion : Nat
  prevMetaSigHashHex : JsString
  chainHeadHashHex : JsString
  chainHeadSeq : Nat
  signatureHex : JsString

structure MetaAnchor where
  signedBytesHashHex : JsString
  name : JsString
  status : MetaStatementStatus
  layoutVersion : Nat
  schema : Option MetaVariableSchemaInput

structure HeadAttestationSubmissionInput where
  suite : JsString
  chainHeadHashHex : JsString
  chainHeadSeq : Nat
  signatureHex : JsString

/-- What the attempts ask of the stored rows. -/
structure DataStore where
  versionAnchor : EnvironmentId → VariableId → (version : Nat) → Option ValuePredecessor
  variableMetaAnchor : EnvironmentId → VariableId → (metaVersion : Nat) → Option MetaAnchor
  environmentMetaAnchor : EnvironmentId → (metaVersion : Nat) → Option MetaAnchor

/-- The project of a request: its id, its chain's history and its rows. -/
structure Project where
  projectId : JsString
  history : ChainHistoryIndex
  store : DataStore

variable (crypto : Crypto)

/-! ## Values -/

def valueRejectReason : ValueInvalidReason → ValueSignatureRejectReason
  | .signatureInvalid => .signatureInvalid
  | .chainHeadMismatch | .chainHeadFuture => .chainHeadUnknown
  | _ => .chainHeadStateMismatch

def valueFailure : CryptoError ValueInvalidReason → AttemptFailure
  | .invalid reason => .rejected (.valueRejected (valueRejectReason reason))
  | _ => .died

def valueContext (projectId : JsString) (environmentId : EnvironmentId) (variableId : VariableId) (writerUserId : UserId)
    (value : ValueInput) : ValueSignatureContext where
  suite := value.suite
  projectId := projectId
  environmentId := environmentId
  epoch := value.epoch
  variableId := variableId
  version := value.version
  nonceHex := value.nonceHex
  ciphertextHex := value.ciphertextHex
  prevValueSigHashHex := value.prevValueSigHashHex
  writerUserId := writerUserId
  chainHeadHashHex := value.chainHeadHashHex
  chainHeadSeq := value.chainHeadSeq

/-- The row before a version; after the version check it is there. -/
def valuePredecessor (store : DataStore) (environmentId : EnvironmentId) (variableId : VariableId) (version : Nat) :
    Except AttemptFailure (Option ValuePredecessor) :=
  if version > 1 then
    match store.versionAnchor environmentId variableId (version - 1) with
    | none => .error .died
    | some anchor => .ok (some anchor)
  else .ok none

def ensureValueSignature (project : Project) (environmentId : EnvironmentId) (variableId : VariableId) (value : ValueInput)
    (member : MemberWithDevice) : Except AttemptFailure JsString := do
  let predecessor ← valuePredecessor project.store environmentId variableId value.version
  (verifyDistributedValue crypto {
    history := project.history
    context := valueContext project.projectId environmentId variableId member.userId value
    writerKeyFingerprintHex := member.keyFingerprintHex
    signatureHex := value.signatureHex
    predecessor := predecessor }).mapError valueFailure

/-! ## Statements -/

def metaRejectReason : MetaInvalidReason → MetaStatementRejectReason
  | .signatureInvalid => .signatureInvalid
  | .chainHeadMismatch | .chainHeadFuture => .chainHeadUnknown
  | .layoutRegression => .layoutRegression
  | _ => .chainHeadStateMismatch

def metaFailure : CryptoError MetaInvalidReason → AttemptFailure
  | .invalid reason => .rejected (.metaRejected (metaRejectReason reason))
  | .unsupportedMetaLayout _ => .rejected (.metaRejected .unsupportedLayout)
  | _ => .died

def cryptoSchemaOf (schema : MetaVariableSchemaInput) : MetaVariableSchema where
  varType := schema.varType
  required := if schema.required then lit "true" else lit "false"
  description := schema.description
  maxAgeDays := match schema.maxAgeDays.getD none with
    | none => []
    | some days => decimal days

def MetaStatementInput.layout (statement : MetaStatementInput) : Nat := statement.layoutVersion.getD 1

def ensureLayoutShape (statement : MetaStatementInput) : Option DataRejection :=
  if statement.layout ≠ 3 || (statement.schema.bind (·.maxAgeDays)).isSome then none
  else some (.payloadMismatch (lit "maxAgeDays"))

def metaContext (projectId : JsString) (environmentId : EnvironmentId) (target : MetaStatementTarget) (authorUserId : UserId)
    (statement : MetaStatementInput) : MetaStatementContext where
  suite := statement.suite
  projectId := projectId
  environmentId := environmentId
  target := target
  name := statement.name
  status := statement.status
  layoutVersion := statement.layoutVersion
  schema := statement.schema.map cryptoSchemaOf
  metaVersion := statement.metaVersion
  prevMetaSigHashHex := statement.prevMetaSigHashHex
  authorUserId := authorUserId
  chainHeadHashHex := statement.chainHeadHashHex
  chainHeadSeq := statement.chainHeadSeq

def ensureMetaStatementSignature (project : Project) (environmentId : EnvironmentId) (target : MetaStatementTarget)
    (statement : MetaStatementInput) (predecessor : Option MetaPredecessor) (member : MemberWithDevice) :
    Except AttemptFailure JsString := do
  stopAt ((ensureLayoutShape statement).map .rejected)
  (verifyDistributedMetaStatement crypto {
    history := project.history
    context := metaContext project.projectId environmentId target member.userId statement
    authorKeyFingerprintHex := member.keyFingerprintHex
    signatureHex := statement.signatureHex
    predecessor := predecessor }).mapError metaFailure

def maxVersionsPerVariable : Nat := 1000

def maxSchemaDescriptionCodepoints : Nat := 1024

inductive MetaOperation
  | reissue
  | activate
  | delete
  deriving DecidableEq, Repr

def ensureSupportedLayout (statement : MetaStatementInput) : Option DataRejection :=
  if supportedMetaLayoutVersions.contains statement.layout then none else some (.metaRejected .unsupportedLayout)

/-- A character of the category Cc. -/
def isControlCharacter (u : UInt16) : Bool := u ≤ 0x1F || (0x7F ≤ u && u ≤ 0x9F)

def ensureDescriptionPolicy (statement : MetaStatementInput) : Option DataRejection :=
  match statement.schema with
  | none => none
  | some schema =>
    if schema.description.any isControlCharacter then some (.descriptionRejected .controlCharacters)
    else if (Utf8.codePoints schema.description).length > maxSchemaDescriptionCodepoints then
      some (.descriptionRejected .tooLong)
    else none

/-- The first field in which a deletion differs from the row before it. -/
def deletePreservationMismatch (anchor : MetaAnchor) (statement : MetaStatementInput) : Option JsString :=
  if statement.name ≠ anchor.name then some (lit "name")
  else if statement.layout ≠ anchor.layoutVersion then some (lit "layoutVersion")
  else
    match anchor.schema, statement.schema with
    | some stored, some declared =>
      if declared.varType ≠ stored.varType then some (lit "varType")
      else if declared.required ≠ stored.required then some (lit "required")
      else if declared.description ≠ stored.description then some (lit "description")
      else if declared.maxAgeDays.getD none ≠ stored.maxAgeDays.getD none then some (lit "maxAgeDays")
      else none
    | _, _ => none

def predecessorMismatch (operation : MetaOperation) (anchor : MetaAnchor) (statement : MetaStatementInput) : Option JsString :=
  match operation with
  | .reissue => if statement.status = anchor.status then none else some (lit "status")
  | .activate =>
    if anchor.status ≠ .declared then some (lit "status")
    else if statement.name = anchor.name then none else some (lit "name")
  | .delete => deletePreservationMismatch anchor statement

def ensureMetaCas (latestMetaVersion : Nat) (statement : MetaStatementInput) : Option DataRejection :=
  if statement.metaVersion = latestMetaVersion + 1 then none else some (.metaVersionConflict latestMetaVersion)

def metaVersionsExceeded (latestMetaVersion : Nat) (status : MetaStatementStatus) : Bool :=
  status ≠ .deleted && latestMetaVersion + 1 > maxVersionsPerVariable

def ensureMetaQuota (latestMetaVersion : Nat) (statement : MetaStatementInput) : Option DataRejection :=
  if metaVersionsExceeded latestMetaVersion statement.status then
    some (.limitExceeded (lit "meta-versions") maxVersionsPerVariable)
  else none

/-- The row before a statement; after the version check it is there. -/
def metaPredecessor (store : DataStore) (environmentId : EnvironmentId) (target : MetaStatementTarget)
    (latestMetaVersion : Nat) : Except AttemptFailure MetaAnchor :=
  match (match target with
    | .variable variableId => store.variableMetaAnchor environmentId variableId latestMetaVersion
    | .environment => store.environmentMetaAnchor environmentId latestMetaVersion) with
  | none => .error .died
  | some anchor => .ok anchor

def acceptMetaStatement (project : Project) (environmentId : EnvironmentId) (target : MetaStatementTarget)
    (operation : MetaOperation) (latestMetaVersion : Nat) (statement : MetaStatementInput) (member : MemberWithDevice) :
    Except AttemptFailure JsString := do
  stopAt ((ensureSupportedLayout statement).map .rejected)
  stopAt ((ensureMetaQuota latestMetaVersion statement).map .rejected)
  stopAt ((ensureMetaCas latestMetaVersion statement).map .rejected)
  let anchor ← metaPredecessor project.store environmentId target latestMetaVersion
  stopAt ((predecessorMismatch operation anchor statement).map fun field => .rejected (.payloadMismatch field))
  stopAt (if operation ≠ .delete then (ensureDescriptionPolicy statement).map .rejected else none)
  ensureMetaStatementSignature crypto project environmentId target statement
    (some ⟨anchor.signedBytesHashHex, anchor.status, anchor.layoutVersion⟩) member

/-! ## Head attestations -/

def attestationRejectReason : Gossip.AttestationInvalidReason → ValueSignatureRejectReason
  | .signatureInvalid => .signatureInvalid
  | .chainHeadMismatch | .chainHeadFuture => .chainHeadUnknown
  | .attesterUnknown | .attesterNotMemberAtHead | .attesterKeyMismatchAtHead => .chainHeadStateMismatch

def attestationFailure : Gossip.AttestationFailure → AttemptFailure
  | .invalid reason => .rejected (.attestationRejected (attestationRejectReason reason))
  | _ => .died

def attestationContext (projectId : JsString) (attesterUserId : UserId) (input : HeadAttestationSubmissionInput) :
    Gossip.HeadAttestationContext where
  suite := input.suite
  projectId := projectId
  attesterUserId := attesterUserId
  chainHeadHashHex := input.chainHeadHashHex
  chainHeadSeq := input.chainHeadSeq

/-- The attempt of `putHeadAttestationProgram`. -/
def verifyHeadAttestation (project : Project) (input : HeadAttestationSubmissionInput) (candidate : MemberWithDevice) :
    Except AttemptFailure JsString :=
  (Gossip.verifyDistributedHeadAttestation crypto project.history
    (attestationContext project.projectId candidate.userId input) candidate.keyFingerprintHex
    input.signatureHex).mapError attestationFailure

/-! ## Wraps -/

/-- Every typed failure is a rejected signature. -/
def wrapFailure : CryptoError Unit → AttemptFailure
  | .thrown => .died
  | _ => .rejected (.dekWrapRejected .signatureInvalid)

def wrapContext (projectId : JsString) (environmentId : EnvironmentId) (signerUserId : UserId) (wrap : DekWrapInput) :
    DekWrapSignatureContext where
  suite := wrap.suite
  projectId := projectId
  environmentId := environmentId
  epoch := wrap.epoch
  recipientUserId := wrap.recipientUserId
  recipientEncPubHex := wrap.recipientEncPubHex
  encHex := wrap.encHex
  ciphertextHex := wrap.ciphertextHex
  signerUserId := signerUserId

def verifyOneWrapSignature (projectId : JsString) (environmentId : EnvironmentId) (signer : MemberWithDevice)
    (signerPublicKey : Bytes) (wrap : DekWrapInput) : Except AttemptFailure Unit :=
  (verifyDekWrapSignature crypto (wrapContext projectId environmentId signer.userId wrap) wrap.signatureHex
    signerPublicKey).mapError wrapFailure

def importSignerKey (signer : MemberWithDevice) : Except AttemptFailure Bytes :=
  match decodeHex signer.sigPubHex with
  | none => .error .died
  | some signerKeyBytes => (importSigningPublicKey signerKeyBytes : Except (CryptoError Unit) Bytes).mapError fun _ => .died

/-- The attempt of `ensureWrapSignatures`, over the first of the wraps. -/
def verifyFirstWrap (project : Project) (environmentId : EnvironmentId) (first : DekWrapInput) (candidate : MemberWithDevice) :
    Except AttemptFailure Bytes := do
  let key ← importSignerKey candidate
  verifyOneWrapSignature crypto project.projectId environmentId candidate key first
  pure key

def ensureWrapSignatures (project : Project) (environmentId : EnvironmentId) (caller : ChainMember) :
    List DekWrapInput → Except AttemptFailure (Option MemberWithDevice)
  | [] => .ok none
  | first :: rest => do
    let (signer, signerPublicKey) ← withSigningDevice caller (verifyFirstWrap crypto project environmentId first)
    rest.forM (verifyOneWrapSignature crypto project.projectId environmentId signer signerPublicKey)
    pure (some signer)

/-! ## Submissions -/

/-- What a device signs of a request: the statement of a creation has no row before it. -/
inductive Submission
  | value (environmentId : EnvironmentId) (variableId : VariableId) (value : ValueInput)
  | createdVariable (environmentId : EnvironmentId) (variableId : VariableId) (statement : MetaStatementInput)
  | metaStatement (environmentId : EnvironmentId) (target : MetaStatementTarget) (operation : MetaOperation)
      (latestMetaVersion : Nat) (statement : MetaStatementInput)
  | headAttestation (input : HeadAttestationSubmissionInput)
  | wraps (environmentId : EnvironmentId) (first : DekWrapInput)

inductive Accepted
  | signedBytes (hashHex : JsString)
  | signerKey (publicKey : Bytes)
  deriving DecidableEq

/-- The attempt that each program hands to `withSigningDevice`. -/
def attempt (project : Project) (submission : Submission) (candidate : MemberWithDevice) : Except AttemptFailure Accepted :=
  match submission with
  | .value environmentId variableId value =>
    (ensureValueSignature crypto project environmentId variableId value candidate).map .signedBytes
  | .createdVariable environmentId variableId statement =>
    (ensureMetaStatementSignature crypto project environmentId (.variable variableId) statement none candidate).map
      .signedBytes
  | .metaStatement environmentId target operation latestMetaVersion statement =>
    (acceptMetaStatement crypto project environmentId target operation latestMetaVersion statement candidate).map
      .signedBytes
  | .headAttestation input => (verifyHeadAttestation crypto project input candidate).map .signedBytes
  | .wraps environmentId first => (verifyFirstWrap crypto project environmentId first candidate).map .signerKey

end Maruhi.Signing
