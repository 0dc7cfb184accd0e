import Maruhi.Chain.Types
import Maruhi.Lib.Framing
import Maruhi.Lib.Json
import Maruhi.Lib.Utf8

/-!
# Canonical bytes of a chain entry (`encoding.ts`, `chain-canonical.ts`)
-/

open Text Utf8 Framing

namespace Maruhi.Chain

def suiteId : JsString := lit "maruhi/v1"

/-! ## Names on the wire -/

def roleName : Role → JsString
  | .owner => lit "owner"
  | .admin => lit "admin"
  | .member => lit "member"
  | .reader => lit "reader"

def scopeKindName : ScopeKind → JsString
  | .all => lit "all"
  | .listed => lit "listed"

def approvalTargetOpName : ApprovalTargetOp → JsString
  | .grantServer => lit "grant_server"
  | .revokeServer => lit "revoke_server"
  | .removeMember => lit "remove_member"
  | .changeRole => lit "change_role"
  | .addMember => lit "add_member"
  | .setApprovalPolicy => lit "set_approval_policy"

def proposableOpName : ProposableOperation → JsString
  | .genesis _ => lit "genesis"
  | .addMember _ => lit "add_member"
  | .removeMember _ => lit "remove_member"
  | .changeRole _ => lit "change_role"
  | .createEnvironment _ => lit "create_environment"
  | .deleteEnvironment _ => lit "delete_environment"
  | .rotateEpoch _ => lit "rotate_epoch"
  | .grantServer _ => lit "grant_server"
  | .revokeServer _ => lit "revoke_server"
  | .checkpoint _ => lit "checkpoint"
  | .setApprovalPolicy _ => lit "set_approval_policy"
  | .addDevice _ => lit "add_device"
  | .revokeDevice _ => lit "revoke_device"

attribute [grind =] proposableOpName

def opName : ChainOperation → JsString
  | .direct operation => proposableOpName operation
  | .propose _ => lit "propose"
  | .approve _ => lit "approve"
  | .withdraw _ => lit "withdraw"

attribute [grind =] opName

/-! ## Length-prefixed encoding -/

inductive LengthPrefixedField
  | str (s : JsString)
  | num (n : Nat)
  | bytes (b : Bytes)

def fieldBody : LengthPrefixedField → Option Bytes
  | .str s => some (utf8Encode s)
  | .num n => if n ≤ Json.maxSafeInteger then some (utf8Encode (decimal n)) else none
  | .bytes b => some b

/-- A field that fits: none where the encoder throws. -/
def fieldOk (field : LengthPrefixedField) : Option Bytes := do
  let body ← fieldBody field
  if body.length > 0xffffffff then none else some body

/-- The encoding, or none where `encodeLengthPrefixed` throws. -/
def encodeLengthPrefixed (fields : List LengthPrefixedField) : Option Bytes :=
  (fields.mapM fieldOk).map frames

def encodeStrings (strings : List JsString) : Option Bytes := encodeLengthPrefixed (strings.map .str)

/-! ## Payloads -/

def canonicalScopeEnvironmentsHex (environmentIds : List EnvironmentId) : Option JsString :=
  (encodeStrings environmentIds).map encodeHex

def canonicalLeasePolicyBytes (policy : List LeasePolicyIssuer) : Option Bytes := do
  let elements ← policy.mapM fun element => do
    let constraints ← element.claimConstraints.mapM fun constraint =>
      encodeStrings [constraint.claimName, constraint.claimValue]
    let constraintList ← encodeLengthPrefixed (constraints.map .bytes)
    encodeLengthPrefixed [.str element.issuerUrl, .str element.audience, .bytes constraintList]
  encodeLengthPrefixed (elements.map .bytes)

def canonicalCheckpointEnvironmentsBytes (environments : List CheckpointEnvironmentEntry) : Option Bytes := do
  let tuples ← environments.mapM fun entry =>
    encodeLengthPrefixed [.str entry.environmentId, .num entry.epoch, .num entry.manifestVersion,
      .str entry.manifestSigHashHex, .str entry.valuesDigestHex]
  encodeLengthPrefixed (tuples.map .bytes)

def canonicalProposablePayloadBytes : ProposableOperation → Option Bytes
  | .genesis p => encodeStrings [p.encPubHex, p.sigPubHex]
  | .addMember p => do
    let scope ← canonicalScopeEnvironmentsHex p.scopeEnvironmentIds
    encodeStrings [p.targetUserId, p.encPubHex, p.sigPubHex, roleName p.role, scopeKindName p.scopeKind, scope]
  | .removeMember p => encodeStrings [p.targetUserId]
  | .changeRole p => do
    let scope ← canonicalScopeEnvironmentsHex p.scopeEnvironmentIds
    encodeStrings [p.targetUserId, roleName p.newRole, scopeKindName p.scopeKind, scope]
  | .createEnvironment p => encodeStrings [p.environmentId, p.dekCommitmentHex]
  | .deleteEnvironment p => encodeStrings [p.environmentId]
  | .rotateEpoch p =>
    encodeLengthPrefixed [.str p.environmentId, .num p.newEpoch, .str p.reason, .str p.dekCommitmentHex]
  | .grantServer p => do
    let scopeLp ← encodeStrings p.scopeEnvironmentIds
    let leasePolicyLp ← canonicalLeasePolicyBytes p.leasePolicy
    encodeStrings [p.serverEncPubHex, p.serverKeyFingerprintHex, encodeHex scopeLp, encodeHex leasePolicyLp]
  | .revokeServer p => encodeStrings [p.serverKeyFingerprintHex]
  | .checkpoint p => do
    let environmentsLp ← canonicalCheckpointEnvironmentsBytes p.environments
    encodeStrings [encodeHex environmentsLp, p.auditHeadHashHex]
  | .setApprovalPolicy p => do
    let opsLp ← encodeStrings (p.ops.map approvalTargetOpName)
    encodeLengthPrefixed [.str (encodeHex opsLp), .num p.requiredApprovals]
  | .addDevice p => do
    let scope ← canonicalScopeEnvironmentsHex p.scopeEnvironmentIds
    encodeStrings [p.encPubHex, p.sigPubHex, roleName p.roleCap, scopeKindName p.scopeKind, scope]
  | .revokeDevice p => do
    let fingerprintsLp ← encodeStrings p.deviceFingerprintsHex
    encodeStrings [p.targetUserId, encodeHex fingerprintsLp]

def canonicalChainPayloadBytes : ChainOperation → Option Bytes
  | .direct operation => canonicalProposablePayloadBytes operation
  | .propose p => do
    let innerPayload ← canonicalProposablePayloadBytes p.inner
    encodeLengthPrefixed [.str (proposableOpName p.inner), .str (encodeHex innerPayload), .num p.expiresAtMs]
  | .approve proposalHashHex => encodeStrings [proposalHashHex]
  | .withdraw proposalHashHex => encodeStrings [proposalHashHex]

/-! ## Entries -/

def signedFields (entry : ChainEntry) (payload : Bytes) : List LengthPrefixedField :=
  [.str entry.suite, .num entry.seq, .str entry.prevHashHex, .str (opName entry.operation),
    .str entry.actor.userId, .str entry.actor.keyFingerprintHex, .bytes payload, .num entry.timestampMs]

def canonicalChainSignedBytes (entry : ChainEntry) : Option Bytes := do
  let payload ← canonicalChainPayloadBytes entry.operation
  encodeLengthPrefixed (signedFields entry payload)

def canonicalChainEntryBytes (entry : ChainEntry) : Option Bytes := do
  let payload ← canonicalChainPayloadBytes entry.operation
  encodeLengthPrefixed (signedFields entry payload ++ [.str entry.signatureHex])

def computeChainEntryHash (crypto : Crypto) (entry : ChainEntry) : Option JsString :=
  (canonicalChainEntryBytes entry).map fun bytes => encodeHex (crypto.sha256 bytes)

end Maruhi.Chain
