import Maruhi.Lib.OrderedMap
import Maruhi.Lib.Text

/-!
# The membership log: its entries and the state derived from them

The types of `chain-types.ts`, `chain-device.ts` and `member-scope.ts`. Every entry here has
passed the payload shape check; `Shape.lean` reads it from an untrusted value.
-/

namespace Maruhi.Chain

abbrev UserId := JsString
abbrev EnvironmentId := JsString
abbrev KeyFingerprintHex := JsString

inductive Role
  | owner
  | admin
  | member
  | reader
  deriving DecidableEq, Repr

/-! ## Scopes and devices -/

inductive ScopeKind
  | all
  | listed
  deriving DecidableEq, Repr

structure ScopePayloadFields where
  scopeKind : ScopeKind
  scopeEnvironmentIds : List EnvironmentId
  deriving DecidableEq, Repr

/-- `all` includes environments created later; `listed` is exactly these. -/
inductive MemberScope
  | all
  | listed (environmentIds : List EnvironmentId)
  deriving DecidableEq, Repr

structure DeviceCap where
  roleCap : Role
  scope : MemberScope
  deriving DecidableEq, Repr

structure ChainDevice extends DeviceCap where
  keyFingerprintHex : KeyFingerprintHex
  encPubHex : JsString
  sigPubHex : JsString
  addedSeq : Nat
  deriving DecidableEq, Repr

structure ChainMember where
  userId : UserId
  role : Role
  scope : MemberScope
  devices : OrderedMap KeyFingerprintHex ChainDevice
  deriving DecidableEq

/-! ## Operations -/

structure GenesisPayload where
  encPubHex : JsString
  sigPubHex : JsString
  deriving DecidableEq, Repr

structure AddMemberPayload extends ScopePayloadFields where
  targetUserId : UserId
  encPubHex : JsString
  sigPubHex : JsString
  role : Role
  deriving DecidableEq, Repr

structure RemoveMemberPayload where
  targetUserId : UserId
  deriving DecidableEq, Repr

structure ChangeRolePayload extends ScopePayloadFields where
  targetUserId : UserId
  newRole : Role
  deriving DecidableEq, Repr

structure CreateEnvironmentPayload where
  environmentId : EnvironmentId
  dekCommitmentHex : JsString
  deriving DecidableEq, Repr

structure DeleteEnvironmentPayload where
  environmentId : EnvironmentId
  deriving DecidableEq, Repr

structure RotateEpochPayload where
  environmentId : EnvironmentId
  newEpoch : Nat
  reason : JsString
  dekCommitmentHex : JsString
  deriving DecidableEq, Repr

structure LeaseClaimConstraint where
  claimName : JsString
  claimValue : JsString
  deriving DecidableEq, Repr

structure LeasePolicyIssuer where
  issuerUrl : JsString
  audience : JsString
  claimConstraints : List LeaseClaimConstraint
  deriving DecidableEq, Repr

structure GrantServerPayload where
  serverEncPubHex : JsString
  serverKeyFingerprintHex : KeyFingerprintHex
  scopeEnvironmentIds : List EnvironmentId
  leasePolicy : List LeasePolicyIssuer
  deriving DecidableEq, Repr

structure RevokeServerPayload where
  serverKeyFingerprintHex : KeyFingerprintHex
  deriving DecidableEq, Repr

structure CheckpointEnvironmentEntry where
  environmentId : EnvironmentId
  epoch : Nat
  manifestVersion : Nat
  manifestSigHashHex : JsString
  valuesDigestHex : JsString
  deriving DecidableEq, Repr

structure CheckpointPayload where
  environments : List CheckpointEnvironmentEntry
  auditHeadHashHex : JsString
  deriving DecidableEq, Repr

/-- The operations a four-eyes policy may name. -/
inductive ApprovalTargetOp
  | grantServer
  | revokeServer
  | removeMember
  | changeRole
  | addMember
  | setApprovalPolicy
  deriving DecidableEq, Repr

structure SetApprovalPolicyPayload where
  ops : List ApprovalTargetOp
  requiredApprovals : Nat
  deriving DecidableEq, Repr

structure AddDevicePayload extends ScopePayloadFields where
  encPubHex : JsString
  sigPubHex : JsString
  roleCap : Role
  deriving DecidableEq, Repr

structure RevokeDevicePayload where
  targetUserId : UserId
  deviceFingerprintsHex : List KeyFingerprintHex
  deriving DecidableEq, Repr

/-- Every operation but the approval operations: what an entry applies, directly or through a proposal. -/
inductive ProposableOperation
  | genesis (payload : GenesisPayload)
  | addMember (payload : AddMemberPayload)
  | removeMember (payload : RemoveMemberPayload)
  | changeRole (payload : ChangeRolePayload)
  | createEnvironment (payload : CreateEnvironmentPayload)
  | deleteEnvironment (payload : DeleteEnvironmentPayload)
  | rotateEpoch (payload : RotateEpochPayload)
  | grantServer (payload : GrantServerPayload)
  | revokeServer (payload : RevokeServerPayload)
  | checkpoint (payload : CheckpointPayload)
  | setApprovalPolicy (payload : SetApprovalPolicyPayload)
  | addDevice (payload : AddDevicePayload)
  | revokeDevice (payload : RevokeDevicePayload)
  deriving DecidableEq, Repr

structure ProposePayload where
  inner : ProposableOperation
  expiresAtMs : Nat
  deriving DecidableEq, Repr

inductive ChainOperation
  | direct (operation : ProposableOperation)
  | propose (payload : ProposePayload)
  | approve (proposalHashHex : JsString)
  | withdraw (proposalHashHex : JsString)
  deriving DecidableEq, Repr

structure ChainActor where
  userId : UserId
  keyFingerprintHex : KeyFingerprintHex
  deriving DecidableEq, Repr

structure ChainEntry where
  suite : JsString
  seq : Nat
  prevHashHex : JsString
  operation : ChainOperation
  actor : ChainActor
  timestampMs : Nat
  signatureHex : JsString
  deriving DecidableEq, Repr

/-! ## The derived state -/

structure ServerGrant where
  serverKeyFingerprintHex : KeyFingerprintHex
  serverEncPubHex : JsString
  grantSeq : Nat
  scopeEnvironmentIds : List EnvironmentId
  leasePolicy : List LeasePolicyIssuer
  deriving DecidableEq, Repr

structure EnvironmentChainState where
  currentEpoch : Nat
  createdAtSeq : Nat
  deletedAtSeq : Option Nat
  epochStartSeqs : OrderedMap Nat Nat
  dekCommitments : OrderedMap Nat JsString
  deriving DecidableEq

structure EnvironmentCheckpointState where
  seq : Nat
  epoch : Nat
  manifestVersion : Nat
  manifestSigHashHex : JsString
  valuesDigestHex : JsString
  deriving DecidableEq, Repr

structure ApprovalPolicy where
  ops : List ApprovalTargetOp
  requiredApprovals : Nat
  deriving DecidableEq, Repr

structure ApprovalVote where
  userId : UserId
  keyFingerprintHex : KeyFingerprintHex
  deriving DecidableEq, Repr

structure PendingProposal where
  proposalSeq : Nat
  proposalHashHex : JsString
  proposerUserId : UserId
  proposerKeyFingerprintHex : KeyFingerprintHex
  proposerRoleAtProposal : Role
  inner : ProposableOperation
  expiresAtMs : Nat
  approvals : List ApprovalVote
  deriving DecidableEq, Repr

/-- The state the verification loop threads; a `Set` is a map to `Unit`. -/
structure MutableChainState where
  members : OrderedMap UserId ChainMember
  serverGrants : OrderedMap KeyFingerprintHex ServerGrant
  environments : OrderedMap EnvironmentId EnvironmentChainState
  checkpoints : OrderedMap EnvironmentId EnvironmentCheckpointState
  memberEncPubs : OrderedMap JsString Unit
  memberSigPubs : OrderedMap JsString Unit
  namedServerKeys : OrderedMap JsString KeyFingerprintHex
  approvalPolicy : Option ApprovalPolicy
  pendingProposals : OrderedMap JsString PendingProposal
  deriving DecidableEq

def MutableChainState.initial : MutableChainState where
  members := .empty
  serverGrants := .empty
  environments := .empty
  checkpoints := .empty
  memberEncPubs := .empty
  memberSigPubs := .empty
  namedServerKeys := .empty
  approvalPolicy := none
  pendingProposals := .empty

structure ChainState where
  members : OrderedMap UserId ChainMember
  serverGrants : OrderedMap KeyFingerprintHex ServerGrant
  environments : OrderedMap EnvironmentId EnvironmentChainState
  checkpoints : OrderedMap EnvironmentId EnvironmentCheckpointState
  approvalPolicy : Option ApprovalPolicy
  pendingProposals : OrderedMap JsString PendingProposal
  namedServerKeys : OrderedMap JsString KeyFingerprintHex
  headSeq : Nat
  headHashHex : JsString
  deriving DecidableEq

inductive ChainInvalidReason
  | emptyChain
  | badSuite
  | badSeq
  | badPrevHash
  | badGenesis
  | badSignature
  | invalidPayload
  | insufficientRole
  | actorNotMember
  | actorKeyMismatch
  | lastOwnerProtected
  | unknownTarget
  | duplicateMember
  | duplicateMemberKey
  | duplicateEnvironment
  | unknownEnvironment
  | unknownServerGrant
  | grantScopeNarrowed
  | duplicateServerKey
  | epochOutOfSequence
  | checkpointAuditRoleInsufficient
  | checkpointEpochMismatch
  | checkpointRegression
  | scopeRoleMismatch
  | scopeNotContained
  | environmentOutOfScope
  | approvalRequired
  | approvalNotRequired
  | approvalQuorumUnreachable
  | unknownProposal
  | duplicateApproval
  | proposalExpired
  | proposalVoid
  | unknownDevice
  | lastDeviceProtected
  | deviceCapExceeded
  | environmentDeleted
  deriving DecidableEq, Repr

/-- WebCrypto, which is outside this code: SHA-256, and Ed25519 verification of a signature by
a raw public key (`false` also where the import or the verification throws). -/
structure Crypto where
  sha256 : Bytes → Bytes
  ed25519Verify : (publicKey signedBytes signature : Bytes) → Bool

end Maruhi.Chain
