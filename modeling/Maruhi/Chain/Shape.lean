import Maruhi.Chain.Canonical
import Maruhi.Chain.Scope

/-!
# The payload structure check

Each predicate of `chain-verify.ts` on an `unknown` value is a reader here: it makes the same
tests and, where they pass, returns the value at its type. `none` is the predicate's `false`.
-/

open Text Utf8

namespace Maruhi.Chain

def genesisPrevHash : JsString := List.replicate 64 48
def fingerprintBytes : Nat := 16
def signatureBytes : Nat := 64
def sha256Bytes : Nat := 32
def maxFieldBytes : Nat := 1024
def maxLeasePolicyIssuers : Nat := 8
def maxLeaseClaimConstraints : Nat := 8
def minActiveRequiredApprovals : Nat := 2
def maxRevokeDeviceFingerprints : Nat := 256

def withinFieldBytes (value : JsString) : Bool :=
  value.length ≤ maxFieldBytes && (utf8Encode value).length ≤ maxFieldBytes

def isBoundedString (value : JsString) : Bool := value.length > 0 && withinFieldBytes value

/-- A non-empty string of at most `maxFieldBytes` in UTF-8. -/
def boundedId? (value : Json) : Option JsString := value.str?.filter isBoundedString

def isHexText (bytes : Nat) (value : JsString) : Bool :=
  value.length = bytes * 2 && match decodeHex value with
    | some decoded => decoded.length = bytes
    | none => false

def hexOfLength? (bytes : Nat) (value : Json) : Option JsString := value.str?.filter (isHexText bytes)

def positive? (value : Json) : Option Nat := value.safeNat?.filter fun n => 1 ≤ n

def role? (value : Json) : Option Role := do
  let s ← value.str?
  [Role.owner, .admin, .member, .reader].find? fun role => roleName role = s

def approvalTargetOps : List ApprovalTargetOp :=
  [.grantServer, .revokeServer, .removeMember, .changeRole, .addMember, .setApprovalPolicy]

def approvalTargetOp? (value : Json) : Option ApprovalTargetOp := do
  let s ← value.str?
  approvalTargetOps.find? fun op => approvalTargetOpName op = s

/-! ## Payload shapes -/

def shapeGenesis (p : Json) : Option GenesisPayload := do
  let encPubHex ← hexOfLength? 32 (p.get "encPubHex")
  let sigPubHex ← hexOfLength? 32 (p.get "sigPubHex")
  pure { encPubHex, sigPubHex }

/-- An `all` scope carries no ids; the ids of a `listed` one are distinct. -/
def scopeIdsOk (fields : ScopePayloadFields) : Bool :=
  match fields.scopeKind with
  | .all => fields.scopeEnvironmentIds.length = 0
  | .listed => fields.scopeEnvironmentIds.Nodup

def shapeScope (p : Json) : Option ScopePayloadFields := do
  let kind ← (p.get "scopeKind").str?
  let scopeKind ← [ScopeKind.all, .listed].find? fun k => scopeKindName k = kind
  let items ← (p.get "scopeEnvironmentIds").arr?.filter fun items => items.length ≤ maxScopeEnvironments
  let scopeEnvironmentIds ← items.mapM boundedId?
  some { scopeKind, scopeEnvironmentIds : ScopePayloadFields } |>.filter scopeIdsOk

def shapeAddMember (p : Json) : Option AddMemberPayload := do
  let targetUserId ← boundedId? (p.get "targetUserId")
  let keys ← shapeGenesis p
  let role ← role? (p.get "role")
  let scope ← shapeScope p
  pure { scope with targetUserId, encPubHex := keys.encPubHex, sigPubHex := keys.sigPubHex, role }

def shapeRemoveMember (p : Json) : Option RemoveMemberPayload := do
  let targetUserId ← boundedId? (p.get "targetUserId")
  pure { targetUserId }

def shapeChangeRole (p : Json) : Option ChangeRolePayload := do
  let targetUserId ← boundedId? (p.get "targetUserId")
  let newRole ← role? (p.get "newRole")
  let scope ← shapeScope p
  pure { scope with targetUserId, newRole }

def shapeCreateEnvironment (p : Json) : Option CreateEnvironmentPayload := do
  let environmentId ← boundedId? (p.get "environmentId")
  let dekCommitmentHex ← hexOfLength? sha256Bytes (p.get "dekCommitmentHex")
  pure { environmentId, dekCommitmentHex }

def shapeDeleteEnvironment (p : Json) : Option DeleteEnvironmentPayload := do
  let environmentId ← boundedId? (p.get "environmentId")
  pure { environmentId }

def shapeRotateEpoch (p : Json) : Option RotateEpochPayload := do
  let environmentId ← boundedId? (p.get "environmentId")
  let newEpoch ← positive? (p.get "newEpoch")
  let reason ← (p.get "reason").str?.filter withinFieldBytes
  let dekCommitmentHex ← hexOfLength? sha256Bytes (p.get "dekCommitmentHex")
  pure { environmentId, newEpoch, reason, dekCommitmentHex }

def shapeLeaseClaimConstraint (value : Json) : Option LeaseClaimConstraint := do
  guard value.isRecord
  let claimName ← boundedId? (value.get "claimName")
  let claimValue ← (value.get "claimValue").str?.filter withinFieldBytes
  pure { claimName, claimValue }

def shapeLeasePolicyIssuer (value : Json) : Option LeasePolicyIssuer := do
  guard value.isRecord
  let issuerUrl ← boundedId? (value.get "issuerUrl")
  let audience ← boundedId? (value.get "audience")
  let items ← (value.get "claimConstraints").arr?.filter fun items => items.length ≤ maxLeaseClaimConstraints
  let claimConstraints ← items.mapM shapeLeaseClaimConstraint
  pure { issuerUrl, audience, claimConstraints }

def shapeGrantServer (p : Json) : Option GrantServerPayload := do
  let serverEncPubHex ← hexOfLength? 32 (p.get "serverEncPubHex")
  let serverKeyFingerprintHex ← hexOfLength? fingerprintBytes (p.get "serverKeyFingerprintHex")
  let scopeItems ← (p.get "scopeEnvironmentIds").arr?.filter fun items => items.length ≤ maxScopeEnvironments
  let scopeEnvironmentIds ← scopeItems.mapM boundedId?
  let policyItems ← (p.get "leasePolicy").arr?.filter fun items => items.length ≤ maxLeasePolicyIssuers
  let leasePolicy ← policyItems.mapM shapeLeasePolicyIssuer
  pure { serverEncPubHex, serverKeyFingerprintHex, scopeEnvironmentIds, leasePolicy }

def shapeRevokeServer (p : Json) : Option RevokeServerPayload := do
  let serverKeyFingerprintHex ← hexOfLength? fingerprintBytes (p.get "serverKeyFingerprintHex")
  pure { serverKeyFingerprintHex }

def shapeCheckpointEnvironment (value : Json) : Option CheckpointEnvironmentEntry := do
  guard value.isRecord
  let environmentId ← boundedId? (value.get "environmentId")
  let epoch ← positive? (value.get "epoch")
  let manifestVersion ← positive? (value.get "manifestVersion")
  let manifestSigHashHex ← hexOfLength? sha256Bytes (value.get "manifestSigHashHex")
  let valuesDigestHex ← hexOfLength? sha256Bytes (value.get "valuesDigestHex")
  pure { environmentId, epoch, manifestVersion, manifestSigHashHex, valuesDigestHex }

def shapeCheckpoint (p : Json) : Option CheckpointPayload := do
  let items ← (p.get "environments").arr?
  let environments ← items.mapM shapeCheckpointEnvironment
  guard (environments.map (·.environmentId)).Nodup
  let auditHeadHashHex ← (p.get "auditHeadHashHex").str?.filter fun s => s.isEmpty || isHexText sha256Bytes s
  pure { environments, auditHeadHashHex }

def shapeSetApprovalPolicy (p : Json) : Option SetApprovalPolicyPayload := do
  let items ← (p.get "ops").arr?
  let ops ← items.mapM approvalTargetOp?
  let requiredApprovals ← (p.get "requiredApprovals").safeNat?.filter fun n =>
    n = 0 || minActiveRequiredApprovals ≤ n
  pure { ops, requiredApprovals }

def shapeAddDevice (p : Json) : Option AddDevicePayload := do
  let keys ← shapeGenesis p
  let roleCap ← role? (p.get "roleCap")
  let scope ← shapeScope p
  pure { scope with encPubHex := keys.encPubHex, sigPubHex := keys.sigPubHex, roleCap }

def shapeRevokeDevice (p : Json) : Option RevokeDevicePayload := do
  let targetUserId ← boundedId? (p.get "targetUserId")
  let items ← (p.get "deviceFingerprintsHex").arr?.filter fun items =>
    1 ≤ items.length && items.length ≤ maxRevokeDeviceFingerprints
  let deviceFingerprintsHex ← items.mapM (hexOfLength? fingerprintBytes)
  guard deviceFingerprintsHex.Nodup
  pure { targetUserId, deviceFingerprintsHex }

/-- `PAYLOAD_SHAPES`, less the approval operations. -/
def payloadShapes : List (JsString × (Json → Option ProposableOperation)) :=
  [(lit "genesis", fun p => (shapeGenesis p).map .genesis),
   (lit "add_member", fun p => (shapeAddMember p).map .addMember),
   (lit "remove_member", fun p => (shapeRemoveMember p).map .removeMember),
   (lit "change_role", fun p => (shapeChangeRole p).map .changeRole),
   (lit "create_environment", fun p => (shapeCreateEnvironment p).map .createEnvironment),
   (lit "delete_environment", fun p => (shapeDeleteEnvironment p).map .deleteEnvironment),
   (lit "rotate_epoch", fun p => (shapeRotateEpoch p).map .rotateEpoch),
   (lit "grant_server", fun p => (shapeGrantServer p).map .grantServer),
   (lit "revoke_server", fun p => (shapeRevokeServer p).map .revokeServer),
   (lit "checkpoint", fun p => (shapeCheckpoint p).map .checkpoint),
   (lit "set_approval_policy", fun p => (shapeSetApprovalPolicy p).map .setApprovalPolicy),
   (lit "add_device", fun p => (shapeAddDevice p).map .addDevice),
   (lit "revoke_device", fun p => (shapeRevokeDevice p).map .revokeDevice)]

attribute [grind =] payloadShapes

/-- `operationShapeOk` on the name of a proposable operation. -/
def proposableShape (op : JsString) (payload : Json) : Option ProposableOperation := do
  let shape ← payloadShapes.lookup op
  shape payload

attribute [grind =] proposableShape

/-- One level of nesting: the inner operation is proposable, so it is no approval operation. -/
def shapePropose (p : Json) : Option ProposePayload := do
  let innerJson := p.get "inner"
  guard innerJson.isRecord
  let innerOp ← (innerJson.get "op").str?
  guard (innerJson.get "payload").isRecord
  let inner ← proposableShape innerOp (innerJson.get "payload")
  let expiresAtMs ← (p.get "expiresAtMs").safeNat?
  pure { inner, expiresAtMs }

def shapeProposalRef (p : Json) : Option JsString := hexOfLength? sha256Bytes (p.get "proposalHashHex")

def operationShapeOk (op payload : Json) : Option ChainOperation := do
  let op ← op.str?
  guard payload.isRecord
  if op = lit "propose" then (shapePropose payload).map .propose
  else if op = lit "approve" then (shapeProposalRef payload).map .approve
  else if op = lit "withdraw" then (shapeProposalRef payload).map .withdraw
  else (proposableShape op payload).map .direct

/-! ## Entries -/

def shapeActor (value : Json) : Option ChainActor := do
  guard value.isRecord
  let userId ← boundedId? (value.get "userId")
  let keyFingerprintHex ← hexOfLength? fingerprintBytes (value.get "keyFingerprintHex")
  pure { userId, keyFingerprintHex }

/-- The entry where `checkPayloadShape` passes; none is `invalid-payload`. The framing fields are
read last: `checkFraming` has already compared them. -/
def checkPayloadShape (entry : Json) : Option ChainEntry := do
  let timestampMs ← (entry.get "timestampMs").safeNat?
  let actor ← shapeActor (entry.get "actor")
  let signatureHex ← hexOfLength? signatureBytes (entry.get "signatureHex")
  let operation ← operationShapeOk (entry.get "op") (entry.get "payload")
  let suite ← (entry.get "suite").str?
  let seq ← (entry.get "seq").nat?
  let prevHashHex ← (entry.get "prevHashHex").str?
  pure { suite, seq, prevHashHex, operation, actor, timestampMs, signatureHex }

def checkFraming (entry : Json) (expectedSeq : Nat) (expectedPrevHash : JsString) :
    Option ChainInvalidReason :=
  if (entry.get "suite").str? ≠ some suiteId then some .badSuite
  else if (entry.get "seq").nat? ≠ some expectedSeq then some .badSeq
  else if decide (expectedSeq = 1) ≠ decide ((entry.get "op").str? = some (lit "genesis")) then some .badGenesis
  else if (entry.get "prevHashHex").str? ≠ some expectedPrevHash then some .badPrevHash
  else none

end Maruhi.Chain
