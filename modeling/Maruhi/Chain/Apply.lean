import Maruhi.Chain.Rules

/-!
# State transitions: applying an operation that passed the rules

`seq` is the applying entry's: for a proposal, the approve that reached quorum.
-/

namespace Maruhi.Chain

def initialEpoch : Nat := 1

def indexDeviceKeys (state : MutableChainState) (device : ChainDevice) : MutableChainState :=
  { state with
    memberEncPubs := state.memberEncPubs.set device.encPubHex ()
    memberSigPubs := state.memberSigPubs.set device.sigPubHex () }

def unindexDeviceKeys (state : MutableChainState) (device : ChainDevice) : MutableChainState :=
  { state with
    memberEncPubs := state.memberEncPubs.delete device.encPubHex
    memberSigPubs := state.memberSigPubs.delete device.sigPubHex }

def setMember (state : MutableChainState) (userId : UserId) (member : ChainMember) : MutableChainState :=
  { state with members := state.members.set userId member }

/-- The first device of a tenure: its cap is (owner, all). -/
def firstDeviceOf (encPubHex sigPubHex : JsString) (keyFingerprintHex : KeyFingerprintHex) (addedSeq : Nat) :
    ChainDevice where
  toDeviceCap := firstDeviceCap
  keyFingerprintHex := keyFingerprintHex
  encPubHex := encPubHex
  sigPubHex := sigPubHex
  addedSeq := addedSeq

def soleDevice (device : ChainDevice) : OrderedMap KeyFingerprintHex ChainDevice :=
  OrderedMap.empty.set device.keyFingerprintHex device

def applyGenesis (p : GenesisPayload) (actor : ChainActor) (seq : Nat) (state : MutableChainState) :
    MutableChainState :=
  let device := firstDeviceOf p.encPubHex p.sigPubHex actor.keyFingerprintHex seq
  indexDeviceKeys (setMember state actor.userId
    { userId := actor.userId, role := .owner, scope := .all, devices := soleDevice device }) device

def applyAddMember (crypto : Crypto) (p : AddMemberPayload) (state : MutableChainState) (seq : Nat) :
    MutableChainState :=
  let device := firstDeviceOf p.encPubHex p.sigPubHex (userFingerprintHex crypto p.encPubHex p.sigPubHex) seq
  indexDeviceKeys (setMember state p.targetUserId
    { userId := p.targetUserId, role := p.role, scope := memberScopeOf p.toScopePayloadFields,
      devices := soleDevice device }) device

def addedDevice (crypto : Crypto) (p : AddDevicePayload) (seq : Nat) : ChainDevice where
  roleCap := p.roleCap
  scope := memberScopeOf p.toScopePayloadFields
  keyFingerprintHex := userFingerprintHex crypto p.encPubHex p.sigPubHex
  encPubHex := p.encPubHex
  sigPubHex := p.sigPubHex
  addedSeq := seq

def applyAddDevice (crypto : Crypto) (p : AddDevicePayload) (state : MutableChainState) (seq : Nat)
    (actorUserId : UserId) : MutableChainState :=
  match state.members.get? actorUserId with
  | none => state
  | some member =>
    let device := addedDevice crypto p seq
    indexDeviceKeys (setMember state member.userId
      { member with devices := member.devices.set device.keyFingerprintHex device }) device

/-- One turn of the revocation loop: the devices that remain, and the state with the key unindexed. -/
def revokeOne (acc : OrderedMap KeyFingerprintHex ChainDevice × MutableChainState) (fp : KeyFingerprintHex) :
    OrderedMap KeyFingerprintHex ChainDevice × MutableChainState :=
  match acc.1.get? fp with
  | none => acc
  | some device => (acc.1.delete fp, unindexDeviceKeys acc.2 device)

def applyRevokeDevice (p : RevokeDevicePayload) (state : MutableChainState) : MutableChainState :=
  match state.members.get? p.targetUserId with
  | none => state
  | some target =>
    let (devices, state) := p.deviceFingerprintsHex.foldl revokeOne (target.devices, state)
    setMember state target.userId { target with devices }

def applyChangeRole (p : ChangeRolePayload) (state : MutableChainState) : MutableChainState :=
  match state.members.get? p.targetUserId with
  | none => state
  | some target =>
    setMember state target.userId
      { target with role := p.newRole, scope := memberScopeOf p.toScopePayloadFields }

def applyRemoveMember (p : RemoveMemberPayload) (state : MutableChainState) : MutableChainState :=
  match state.members.get? p.targetUserId with
  | none => state
  | some target =>
    target.devices.values.foldl unindexDeviceKeys { state with members := state.members.delete target.userId }

def applyGrantServer (p : GrantServerPayload) (state : MutableChainState) (seq : Nat) : MutableChainState :=
  { state with
    -- The key stays named after a revoke_server.
    namedServerKeys := state.namedServerKeys.set p.serverEncPubHex p.serverKeyFingerprintHex
    serverGrants := state.serverGrants.set p.serverKeyFingerprintHex
      { serverKeyFingerprintHex := p.serverKeyFingerprintHex
        serverEncPubHex := p.serverEncPubHex
        grantSeq := seq
        scopeEnvironmentIds := p.scopeEnvironmentIds
        leasePolicy := p.leasePolicy } }

def applyRevokeServer (p : RevokeServerPayload) (state : MutableChainState) : MutableChainState :=
  { state with serverGrants := state.serverGrants.delete p.serverKeyFingerprintHex }

def applyCreateEnvironment (p : CreateEnvironmentPayload) (state : MutableChainState) (seq : Nat) :
    MutableChainState :=
  { state with
    environments := state.environments.set p.environmentId
      { currentEpoch := initialEpoch
        createdAtSeq := seq
        deletedAtSeq := none
        epochStartSeqs := OrderedMap.empty.set initialEpoch seq
        dekCommitments := OrderedMap.empty.set initialEpoch p.dekCommitmentHex } }

def pruneDevice (environmentId : EnvironmentId) (device : ChainDevice) : ChainDevice :=
  { device with scope := scopeWithout device.scope environmentId }

/-- A member without a deleted environment in their scope or in a device's cap. -/
def pruneMember (environmentId : EnvironmentId) (member : ChainMember) : ChainMember :=
  { member with
    scope := scopeWithout member.scope environmentId
    devices := member.devices.mapValues (pruneDevice environmentId) }

def pruneGrant (environmentId : EnvironmentId) (grant : ServerGrant) : ServerGrant :=
  { grant with scopeEnvironmentIds := grant.scopeEnvironmentIds.filter fun id => id ≠ environmentId }

/-- The deleted environment stays in the set; its id leaves every listed scope. -/
def applyDeleteEnvironment (p : DeleteEnvironmentPayload) (state : MutableChainState) (seq : Nat) :
    MutableChainState :=
  match state.environments.get? p.environmentId with
  | none => state
  | some environment =>
    { state with
      environments := state.environments.set p.environmentId { environment with deletedAtSeq := some seq }
      members := state.members.values.foldl
        (fun members member => members.set member.userId (pruneMember p.environmentId member)) state.members
      serverGrants := state.serverGrants.values.foldl
        (fun grants grant => grants.set grant.serverKeyFingerprintHex (pruneGrant p.environmentId grant))
        state.serverGrants
      checkpoints := state.checkpoints.delete p.environmentId }

attribute [grind =] applyDeleteEnvironment

def applyRotateEpoch (p : RotateEpochPayload) (state : MutableChainState) (seq : Nat) : MutableChainState :=
  match state.environments.get? p.environmentId with
  | none => state
  | some environment =>
    { state with
      environments := state.environments.set p.environmentId
        { environment with
          currentEpoch := p.newEpoch
          epochStartSeqs := environment.epochStartSeqs.set p.newEpoch seq
          dekCommitments := environment.dekCommitments.set p.newEpoch p.dekCommitmentHex } }

attribute [grind =] applyRotateEpoch

def checkpointStateOf (tuple : CheckpointEnvironmentEntry) (seq : Nat) : EnvironmentCheckpointState where
  seq := seq
  epoch := tuple.epoch
  manifestVersion := tuple.manifestVersion
  manifestSigHashHex := tuple.manifestSigHashHex
  valuesDigestHex := tuple.valuesDigestHex

def applyCheckpoint (p : CheckpointPayload) (state : MutableChainState) (seq : Nat) : MutableChainState :=
  { state with
    checkpoints := p.environments.foldl
      (fun checkpoints tuple => checkpoints.set tuple.environmentId (checkpointStateOf tuple seq))
      state.checkpoints }

/-- A policy that requires no approvals is no policy. -/
def applySetApprovalPolicy (p : SetApprovalPolicyPayload) (state : MutableChainState) : MutableChainState :=
  { state with
    approvalPolicy := if p.requiredApprovals = 0 then none
      else some { ops := (OrderedMap.setOf p.ops).keys, requiredApprovals := p.requiredApprovals } }

def applyOperation (crypto : Crypto) (operation : ProposableOperation) (state : MutableChainState) (seq : Nat)
    (actorUserId : UserId) : MutableChainState :=
  match operation with
  -- A genesis is applied by `applyGenesis`, which needs the actor.
  | .genesis _ => state
  | .addMember p => applyAddMember crypto p state seq
  | .changeRole p => applyChangeRole p state
  | .removeMember p => applyRemoveMember p state
  | .grantServer p => applyGrantServer p state seq
  | .revokeServer p => applyRevokeServer p state
  | .createEnvironment p => applyCreateEnvironment p state seq
  | .deleteEnvironment p => applyDeleteEnvironment p state seq
  | .rotateEpoch p => applyRotateEpoch p state seq
  | .checkpoint p => applyCheckpoint p state seq
  | .setApprovalPolicy p => applySetApprovalPolicy p state
  | .addDevice p => applyAddDevice crypto p state seq actorUserId
  | .revokeDevice p => applyRevokeDevice p state

attribute [grind =] applyOperation

end Maruhi.Chain
