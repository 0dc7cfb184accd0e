import Maruhi.Signing.Validate

/-!
# Signed values and statements (`value-verify.ts`, `meta-verify.ts`, `dek-wrap-sign.ts`)

Each verification reads its input's form, the signer's key, the signature, the declared head and the predecessor.
-/

open Text

namespace Maruhi.Signing
open Chain

abbrev VariableId := JsString

/-! ## Values -/

structure ValueSignatureContext where
  suite : JsString
  projectId : JsString
  environmentId : EnvironmentId
  epoch : Nat
  variableId : VariableId
  version : Nat
  nonceHex : JsString
  ciphertextHex : JsString
  /-- Empty for version 1. -/
  prevValueSigHashHex : JsString
  writerUserId : UserId
  chainHeadHashHex : JsString
  chainHeadSeq : Nat

structure ValuePredecessor where
  signedBytesHashHex : JsString
  epoch : Nat

inductive ValueInvalidReason
  | signatureInvalid
  | writerUnknown
  | chainHeadFuture
  | chainHeadMismatch
  | writerNotMemberAtHead
  | writerKeyMismatchAtHead
  | writerRoleInsufficientAtHead
  | writerEnvironmentOutOfScopeAtHead
  | environmentNotCreatedAtHead
  | epochNotCurrentAtHead
  | prevShapeMismatch
  | prevHashMismatch
  | epochRegressed
  deriving DecidableEq, Repr

namespace ValueSignatureContext

def numericFieldInvalid (context : ValueSignatureContext) : Option JsString :=
  if isUnsafeCount context.epoch then some (lit "context epoch")
  else if isUnsafeCount context.version then some (lit "context version")
  else if isUnsafeCount context.chainHeadSeq then some (lit "context chainHeadSeq")
  else none

def hexFieldInvalid (context : ValueSignatureContext) : Option JsString :=
  if !isHexText 12 context.nonceHex then some (lit "context nonceHex")
  else if context.ciphertextHex.length < 16 * 2 || context.ciphertextHex.length % 2 ≠ 0 ||
      (decodeHex context.ciphertextHex).isNone then some (lit "context ciphertextHex")
  else if !context.prevValueSigHashHex.isEmpty && !isHexText sha256Bytes context.prevValueSigHashHex then
    some (lit "context prevValueSigHashHex")
  else if !isHexText sha256Bytes context.chainHeadHashHex then some (lit "context chainHeadHashHex")
  else none

end ValueSignatureContext

def valueContextInvalidField (context : ValueSignatureContext) : Option JsString :=
  if context.suite.isEmpty then some (lit "context suite")
  else if context.projectId.isEmpty then some (lit "context projectId")
  else if context.environmentId.isEmpty then some (lit "context environmentId")
  else if context.variableId.isEmpty then some (lit "context variableId")
  else if context.writerUserId.isEmpty then some (lit "context writerUserId")
  else context.numericFieldInvalid.or context.hexFieldInvalid

def buildValueSignedBytes (context : ValueSignatureContext) : Option Bytes :=
  encodeLengthPrefixed [
    .str (context.suite ++ lit "/value-sig"),
    .str context.projectId,
    .str context.environmentId,
    .num context.epoch,
    .str context.variableId,
    .num context.version,
    .str context.nonceHex,
    .str context.ciphertextHex,
    .str context.prevValueSigHashHex,
    .str context.writerUserId,
    .str context.chainHeadHashHex,
    .num context.chainHeadSeq]

structure DistributedValueInput where
  history : ChainHistoryIndex
  context : ValueSignatureContext
  writerKeyFingerprintHex : KeyFingerprintHex
  signatureHex : JsString
  predecessor : Option ValuePredecessor

/-- `HEAD_AUTHORIZATION_REASONS` of `value-verify.ts`. -/
def valueHeadReason : HeadReason → ValueInvalidReason
  | .chainHeadFuture => .chainHeadFuture
  | .chainHeadMismatch => .chainHeadMismatch
  | .notMemberAtHead => .writerNotMemberAtHead
  | .keyMismatchAtHead => .writerKeyMismatchAtHead
  | .roleInsufficientAtHead => .writerRoleInsufficientAtHead
  | .outOfScopeAtHead => .writerEnvironmentOutOfScopeAtHead

namespace DistributedValueInput

def headStateReason (input : DistributedValueInput) : Option ValueInvalidReason :=
  let context := input.context
  match headAuthorizationReason input.history context.chainHeadSeq context.chainHeadHashHex context.writerUserId
      input.writerKeyFingerprintHex .member (some context.environmentId) with
  | some reason => some (valueHeadReason reason)
  | none =>
    match input.history.environmentStateAt context.environmentId context.chainHeadSeq with
    | none => some .environmentNotCreatedAtHead
    | some environment => if environment.currentEpoch ≠ context.epoch then some .epochNotCurrentAtHead else none

def prevReason (input : DistributedValueInput) : Option ValueInvalidReason :=
  let context := input.context
  if decide (context.version = 1) ≠ context.prevValueSigHashHex.isEmpty then some .prevShapeMismatch
  else match input.predecessor with
    | none => none
    | some predecessor =>
      if context.prevValueSigHashHex ≠ predecessor.signedBytesHashHex then some .prevHashMismatch
      else if context.epoch < predecessor.epoch then some .epochRegressed
      else none

end DistributedValueInput

variable (crypto : Crypto)

def computeValueSignedBytesHash (context : ValueSignatureContext) : Except (CryptoError ValueInvalidReason) JsString := do
  stopAt ((valueContextInvalidField context).map .invalidInput)
  hashHexOf crypto (buildValueSignedBytes context)

def verifyValueSignature (context : ValueSignatureContext) (signatureHex : JsString) (writerPublicKey : Bytes) :
    Except (CryptoError ValueInvalidReason) Unit := do
  stopAt ((valueContextInvalidField context).map .invalidInput)
  verifyEd25519Over crypto (buildValueSignedBytes context) signatureHex writerPublicKey (.invalid .signatureInvalid)

/-- The hash of the signed bytes, where the value verifies. -/
def verifyDistributedValue (input : DistributedValueInput) : Except (CryptoError ValueInvalidReason) JsString := do
  stopAt (((valueContextInvalidField input.context).or
    (distributedInputInvalidField input.writerKeyFingerprintHex (lit "writerKeyFingerprintHex") input.signatureHex
      (input.predecessor.map (·.signedBytesHashHex)))).map .invalidInput)
  let writerPublicKey ← importActorKeyByFingerprint input.history input.context.writerUserId
    input.writerKeyFingerprintHex (.invalid .writerUnknown)
  verifyValueSignature crypto input.context input.signatureHex writerPublicKey
  stopAt (input.headStateReason.map .invalid)
  stopAt (input.prevReason.map .invalid)
  computeValueSignedBytesHash crypto input.context

/-! ## Statements -/

inductive MetaStatementStatus
  | active
  | deleted
  | declared
  deriving DecidableEq, Repr

def MetaStatementStatus.text : MetaStatementStatus → JsString
  | active => lit "active"
  | deleted => lit "deleted"
  | declared => lit "declared"

structure MetaVariableSchema where
  varType : JsString
  required : JsString
  description : JsString
  /-- Empty where none is declared. -/
  maxAgeDays : JsString

inductive MetaStatementTarget
  | variable (variableId : VariableId)
  | environment
  deriving DecidableEq

structure MetaStatementContext where
  suite : JsString
  projectId : JsString
  environmentId : EnvironmentId
  target : MetaStatementTarget
  name : JsString
  status : MetaStatementStatus
  layoutVersion : Option Nat
  schema : Option MetaVariableSchema
  metaVersion : Nat
  /-- Empty for metaVersion 1. -/
  prevMetaSigHashHex : JsString
  authorUserId : UserId
  chainHeadHashHex : JsString
  chainHeadSeq : Nat

inductive MetaInvalidReason
  | signatureInvalid
  | authorUnknown
  | chainHeadFuture
  | chainHeadMismatch
  | authorNotMemberAtHead
  | authorKeyMismatchAtHead
  | authorRoleInsufficientAtHead
  | authorEnvironmentOutOfScopeAtHead
  | prevShapeMismatch
  | prevHashMismatch
  | revivedAfterDelete
  | declaredAfterActive
  | layoutRegression
  deriving DecidableEq, Repr

def metaVarTypes : List JsString := [lit "", lit "string", lit "number", lit "boolean", lit "url"]

def maxMetaMaxAgeDays : Nat := 3650

/-- Empty, or up to four digits without a leading zero, within the bound. -/
def isMetaMaxAgeDays (text : JsString) : Bool :=
  match text with
  | [] => true
  | digit :: rest =>
    49 ≤ digit && digit ≤ 57 && rest.length ≤ 3 && (rest.all fun u => 48 ≤ u && u ≤ 57) &&
      text.foldl (fun n u => 10 * n + (u.toNat - 48)) 0 ≤ maxMetaMaxAgeDays

def supportedMetaLayoutVersions : List Nat := [1, 3]

def metaLayoutVersionOf (layoutVersion : Option Nat) : Nat := layoutVersion.getD 1

/-- The layout that a context selects, with the fields it encodes. -/
inductive MetaLayout
  | v1
  | v3 (variableId : VariableId) (schema : MetaVariableSchema)

namespace MetaStatementContext

def numericFieldInvalid (context : MetaStatementContext) : Option JsString :=
  if isUnsafeCount context.metaVersion then some (lit "context metaVersion")
  else if isUnsafeCount context.chainHeadSeq then some (lit "context chainHeadSeq")
  else none

def hexFieldInvalid (context : MetaStatementContext) : Option JsString :=
  if !context.prevMetaSigHashHex.isEmpty && !isHexText sha256Bytes context.prevMetaSigHashHex then
    some (lit "context prevMetaSigHashHex")
  else if !isHexText sha256Bytes context.chainHeadHashHex then some (lit "context chainHeadHashHex")
  else none

def coordinateFieldInvalid (context : MetaStatementContext) : Option JsString :=
  if context.suite.isEmpty then some (lit "context suite")
  else if context.projectId.isEmpty then some (lit "context projectId")
  else if context.environmentId.isEmpty then some (lit "context environmentId")
  else none

def layoutV1Of (context : MetaStatementContext) : Except (CryptoError MetaInvalidReason) MetaLayout :=
  if context.schema.isNone then .ok .v1 else .error (.invalidInput (lit "context schema"))

def layoutV3Of (context : MetaStatementContext) : Except (CryptoError MetaInvalidReason) MetaLayout :=
  match context.target with
  | .environment => .error (.invalidInput (lit "context layoutVersion"))
  | .variable variableId =>
    match context.schema with
    | none => .error (.invalidInput (lit "context schema"))
    | some schema => .ok (.v3 variableId schema)

def selectMetaLayout (context : MetaStatementContext) : Except (CryptoError MetaInvalidReason) MetaLayout :=
  if context.layoutVersion.any isUnsafeCount then .error (.invalidInput (lit "context layoutVersion"))
  else
    let version := metaLayoutVersionOf context.layoutVersion
    if version = 1 then context.layoutV1Of
    else if version = 3 then context.layoutV3Of
    else .error (.unsupportedMetaLayout version)

def layoutV1FieldInvalid (context : MetaStatementContext) : Option JsString :=
  let statuses : List MetaStatementStatus :=
    match context.target with
    | .environment => [.active]
    | .variable _ => [.active, .deleted]
  if statuses.contains context.status then none else some (lit "context status")

/-- Every status is one of layout 3's. -/
def layoutV3FieldInvalid (schema : MetaVariableSchema) : Option JsString :=
  if !metaVarTypes.contains schema.varType then some (lit "context varType")
  else if schema.required ≠ lit "true" ∧ schema.required ≠ lit "false" then some (lit "context required")
  else if !isMetaMaxAgeDays schema.maxAgeDays then some (lit "context maxAgeDays")
  else none

def contextInvalidField (context : MetaStatementContext) (layout : MetaLayout) : Option JsString :=
  match context.coordinateFieldInvalid with
  | some coordinate => some coordinate
  | none =>
    if (match context.target with | .variable variableId => variableId.isEmpty | .environment => false) then
      some (lit "context variableId")
    else if context.name.isEmpty then some (lit "context name")
    else match (match layout with
        | .v1 => context.layoutV1FieldInvalid
        | .v3 _ schema => layoutV3FieldInvalid schema) with
      | some field => some field
      | none =>
        if context.authorUserId.isEmpty then some (lit "context authorUserId")
        else context.numericFieldInvalid.or context.hexFieldInvalid

def checkedMetaLayout (context : MetaStatementContext) : Except (CryptoError MetaInvalidReason) MetaLayout := do
  let layout ← context.selectMetaLayout
  stopAt ((context.contextInvalidField layout).map .invalidInput)
  pure layout

def encodeMetaSignedBytes (context : MetaStatementContext) : MetaLayout → Option Bytes
  | .v3 variableId schema =>
    encodeLengthPrefixed [
      .str (context.suite ++ lit "/var-meta-sig-v3"),
      .str context.projectId,
      .str context.environmentId,
      .str variableId,
      .str context.name,
      .str context.status.text,
      .str schema.varType,
      .str schema.required,
      .str schema.description,
      .str schema.maxAgeDays,
      .num context.metaVersion,
      .str context.prevMetaSigHashHex,
      .str context.authorUserId,
      .str context.chainHeadHashHex,
      .num context.chainHeadSeq]
  | .v1 =>
    encodeLengthPrefixed ([
      .str (context.suite ++ match context.target with
        | .variable _ => lit "/var-meta-sig"
        | .environment => lit "/env-meta-sig"),
      .str context.projectId,
      .str context.environmentId] ++
      (match context.target with
        | .variable variableId => [.str variableId]
        | .environment => []) ++ [
      .str context.name,
      .str context.status.text,
      .num context.metaVersion,
      .str context.prevMetaSigHashHex,
      .str context.authorUserId,
      .str context.chainHeadHashHex,
      .num context.chainHeadSeq])

end MetaStatementContext

structure MetaPredecessor where
  signedBytesHashHex : JsString
  status : MetaStatementStatus
  layoutVersion : Nat

structure DistributedMetaStatementInput where
  history : ChainHistoryIndex
  context : MetaStatementContext
  authorKeyFingerprintHex : KeyFingerprintHex
  signatureHex : JsString
  predecessor : Option MetaPredecessor

/-- `HEAD_AUTHORIZATION_REASONS` of `meta-verify.ts`. -/
def metaHeadReason : HeadReason → MetaInvalidReason
  | .chainHeadFuture => .chainHeadFuture
  | .chainHeadMismatch => .chainHeadMismatch
  | .notMemberAtHead => .authorNotMemberAtHead
  | .keyMismatchAtHead => .authorKeyMismatchAtHead
  | .roleInsufficientAtHead => .authorRoleInsufficientAtHead
  | .outOfScopeAtHead => .authorEnvironmentOutOfScopeAtHead

namespace DistributedMetaStatementInput

def headStateReason (input : DistributedMetaStatementInput) : Option MetaInvalidReason :=
  let context := input.context
  (headAuthorizationReason input.history context.chainHeadSeq context.chainHeadHashHex context.authorUserId
    input.authorKeyFingerprintHex .member (some context.environmentId)).map metaHeadReason

def prevReason (input : DistributedMetaStatementInput) : Option MetaInvalidReason :=
  let context := input.context
  if decide (context.metaVersion = 1) ≠ context.prevMetaSigHashHex.isEmpty then some .prevShapeMismatch
  else match input.predecessor with
    | none => none
    | some predecessor =>
      if context.prevMetaSigHashHex ≠ predecessor.signedBytesHashHex then some .prevHashMismatch
      else if predecessor.status = .deleted then some .revivedAfterDelete
      else if predecessor.status = .active ∧ context.status = .declared then some .declaredAfterActive
      else if metaLayoutVersionOf context.layoutVersion < predecessor.layoutVersion then some .layoutRegression
      else none

end DistributedMetaStatementInput

def computeMetaSignedBytesHash (context : MetaStatementContext) : Except (CryptoError MetaInvalidReason) JsString := do
  let layout ← context.checkedMetaLayout
  hashHexOf crypto (context.encodeMetaSignedBytes layout)

def verifyMetaStatementSignature (context : MetaStatementContext) (signatureHex : JsString) (authorPublicKey : Bytes) :
    Except (CryptoError MetaInvalidReason) Unit := do
  let layout ← context.checkedMetaLayout
  verifyEd25519Over crypto (context.encodeMetaSignedBytes layout) signatureHex authorPublicKey (.invalid .signatureInvalid)

/-- The hash of the signed bytes, where the statement verifies. -/
def verifyDistributedMetaStatement (input : DistributedMetaStatementInput) :
    Except (CryptoError MetaInvalidReason) JsString := do
  let _ ← input.context.checkedMetaLayout
  stopAt ((distributedInputInvalidField input.authorKeyFingerprintHex (lit "authorKeyFingerprintHex") input.signatureHex
    (input.predecessor.map (·.signedBytesHashHex))).map .invalidInput)
  let authorPublicKey ← importActorKeyByFingerprint input.history input.context.authorUserId
    input.authorKeyFingerprintHex (.invalid .authorUnknown)
  verifyMetaStatementSignature crypto input.context input.signatureHex authorPublicKey
  stopAt (input.headStateReason.map .invalid)
  stopAt (input.prevReason.map .invalid)
  computeMetaSignedBytesHash crypto input.context

/-! ## DEK wraps -/

structure DekWrapSignatureContext where
  suite : JsString
  projectId : JsString
  environmentId : EnvironmentId
  epoch : Nat
  recipientUserId : JsString
  recipientEncPubHex : JsString
  encHex : JsString
  ciphertextHex : JsString
  signerUserId : UserId

def DekWrapSignatureContext.contextInvalidField (context : DekWrapSignatureContext) : Option JsString :=
  if context.suite.isEmpty then some (lit "context suite")
  else if context.signerUserId.isEmpty then some (lit "context signerUserId")
  else if context.epoch > Json.maxSafeInteger then some (lit "context epoch")
  else if !isHexText 32 context.recipientEncPubHex then some (lit "context recipientEncPubHex")
  else if !isHexText 32 context.encHex then some (lit "context encHex")
  else if !isHexText 48 context.ciphertextHex then some (lit "context ciphertextHex")
  else none

def buildDekWrapSignatureBytes (context : DekWrapSignatureContext) : Option Bytes :=
  encodeLengthPrefixed [
    .str (context.suite ++ lit "/dek-wrap-sig"),
    .str context.projectId,
    .str context.environmentId,
    .num context.epoch,
    .str context.recipientUserId,
    .str context.recipientEncPubHex,
    .str context.encHex,
    .str context.ciphertextHex,
    .str context.signerUserId]

/-- The only reason there is: the signature. -/
def verifyDekWrapSignature (context : DekWrapSignatureContext) (signatureHex : JsString) (signerPublicKey : Bytes) :
    Except (CryptoError Unit) Unit := do
  stopAt (context.contextInvalidField.map .invalidInput)
  verifyEd25519Over crypto (buildDekWrapSignatureBytes context) signatureHex signerPublicKey (.invalid ())

end Maruhi.Signing
