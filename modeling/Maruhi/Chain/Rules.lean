import Maruhi.Chain.Canonical
import Maruhi.Chain.Device
import Maruhi.Chain.Shape

/-!
# Role rules, the four-eyes predicate and the consensus rules

Each rule returns the reason it refuses for, or none; no rule changes the state. `??` between
two rules is `<|>`.
-/

open Text

namespace Maruhi.Chain

/-- A subject with the signing device's effective permission. -/
structure ActorContext where
  userId : UserId
  device : ChainDevice
  permission : EffectivePermission

def actorContextOf (member : ChainMember) (device : ChainDevice) : ActorContext where
  userId := member.userId
  device := device
  permission := effectivePermissionOf member device.toDeviceCap

def atLeast (role minimum : Role) : Bool := roleRank role ≥ roleRank minimum

def isOwner (member : ChainMember) : Bool := member.role = .owner

def ownersCount (state : MutableChainState) : Nat := state.members.values.countP isOwner

/-- The fingerprint of a key pair: the first bytes of SHA-256(enc ‖ sig). -/
def userFingerprintHex (crypto : Crypto) (encPubHex sigPubHex : JsString) : KeyFingerprintHex :=
  encodeHex ((crypto.sha256 ((decodeHex encPubHex).getD [] ++ (decodeHex sigPubHex).getD [])).take fingerprintBytes)

def registersTakenKey (state : MutableChainState) (encPubHex sigPubHex : JsString) : Bool :=
  state.memberEncPubs.has encPubHex || state.memberSigPubs.has sigPubHex || state.namedServerKeys.has encPubHex

/-! ## Principle 1: the environments a change touches -/

def permissionChangeAddMember (p : AddMemberPayload) : EnvironmentSet :=
  scopeAsEnvironmentSet (memberScopeOf p.toScopePayloadFields)

def permissionChangeRemoveMember (target : Option ChainMember) : EnvironmentSet :=
  scopeAsEnvironmentSet ((target.map (·.scope)).getD .all)

def permissionChangeChangeRole (p : ChangeRolePayload) (target : Option ChainMember) : EnvironmentSet :=
  let current := scopeAsEnvironmentSet ((target.map (·.scope)).getD .all)
  let next := scopeAsEnvironmentSet (memberScopeOf p.toScopePayloadFields)
  if target.map (·.role) = some p.newRole then symmetricDifferenceEnvironmentSets current next
  else unionEnvironmentSets current next

/-! ## Principle 2: four-eyes -/

/-- The operations a policy may list, under the name the list has for them. -/
def approvalTargetOpOf : ProposableOperation → Option ApprovalTargetOp
  | .grantServer _ => some .grantServer
  | .revokeServer _ => some .revokeServer
  | .removeMember _ => some .removeMember
  | .changeRole _ => some .changeRole
  | .addMember _ => some .addMember
  | .setApprovalPolicy _ => some .setApprovalPolicy
  | _ => none

def establishesOwner : ProposableOperation → Bool
  | .addMember p => p.role = .owner
  | .changeRole p => p.newRole = .owner
  | _ => false

def isSetApprovalPolicy : ProposableOperation → Bool
  | .setApprovalPolicy _ => true
  | _ => false

def isApprovalTarget (operation : ProposableOperation) (policy : Option ApprovalPolicy) : Bool :=
  match policy with
  | none => false
  | some policy =>
    if isSetApprovalPolicy operation || establishesOwner operation then true
    else match approvalTargetOpOf operation with
      | some op => policy.ops.contains op
      | none => false

/-- The signer set of a proposal: the proposer, if they proposed as an owner, and the approvers. -/
def approvalSignersOf (pending : PendingProposal) : List ApprovalVote :=
  (if pending.proposerRoleAtProposal = .owner then
    [{ userId := pending.proposerUserId, keyFingerprintHex := pending.proposerKeyFingerprintHex }]
  else []) ++ pending.approvals

def deviceOf (members : OrderedMap UserId ChainMember) (userId : UserId) (keyFingerprintHex : KeyFingerprintHex) :
    Option (ChainMember × ChainDevice) := do
  let member ← members.get? userId
  let device ← member.devices.get? keyFingerprintHex
  pure (member, device)

def voteDevice (state : MutableChainState) (signer : ApprovalVote) : Option ChainDevice :=
  (deviceOf state.members signer.userId signer.keyFingerprintHex).map Prod.snd

/-- A vote whose device is now an owner's device with effective role owner. -/
def countableVote (members : OrderedMap UserId ChainMember) (signer : ApprovalVote) : Bool :=
  match deviceOf members signer.userId signer.keyFingerprintHex with
  | some (member, device) => (effectivePermissionOf member device.toDeviceCap).role = .owner
  | none => false

/-- The distinct people among the signers whose vote is countable now. -/
def ownerVotersOf (members : OrderedMap UserId ChainMember) (signers : List ApprovalVote) :
    OrderedMap UserId Unit :=
  .setOf ((signers.filter (countableVote members)).map (·.userId))

def countOwnerVotes (state : MutableChainState) (signers : List ApprovalVote) : Nat :=
  (ownerVotersOf state.members signers).size

/-- The number of people an operation removes from the owner set. -/
def ownersRemovedBy (operation : ProposableOperation) (target : Option ChainMember) : Nat :=
  if target.map (·.role) ≠ some .owner then 0
  else match operation with
    | .removeMember _ => 1
    | .changeRole p => if p.newRole ≠ .owner then 1 else 0
    | _ => 0

def quorumReachableAfter (operation : ProposableOperation) (state : MutableChainState)
    (target : Option ChainMember) : Bool :=
  let required := match operation with
    | .setApprovalPolicy p => p.requiredApprovals
    | _ => (state.approvalPolicy.map (·.requiredApprovals)).getD 0
  required = 0 || ((ownersCount state : Int) - ownersRemovedBy operation target ≥ required)

/-! ## Role rules -/

def requireRole (actual minimum : Role) : Option ChainInvalidReason :=
  if atLeast actual minimum then none else some .insufficientRole

def checkpointRoleReason (auditHeadHashHex : JsString) (actorRole : Role) : Option ChainInvalidReason :=
  if !atLeast actorRole .member then some .insufficientRole
  else if auditHeadHashHex ≠ [] && !atLeast actorRole .admin then some .checkpointAuditRoleInsufficient
  else none

def addMemberRoleReason (grantedRole actorRole : Role) : Option ChainInvalidReason :=
  requireRole actorRole (if atLeast grantedRole .admin then .owner else .admin)

def roleReason (operation : ProposableOperation) (actor : ActorContext) : Option ChainInvalidReason :=
  match operation with
  | .genesis _ => none
  | .addMember p => addMemberRoleReason p.role actor.permission.role
  | .removeMember _ => requireRole actor.permission.role .admin
  | .changeRole _ => requireRole actor.permission.role .admin
  | .createEnvironment _ => requireRole actor.permission.role .member
  | .deleteEnvironment _ => requireRole actor.permission.role .admin
  | .rotateEpoch _ => requireRole actor.permission.role .member
  | .checkpoint p => checkpointRoleReason p.auditHeadHashHex actor.permission.role
  | .grantServer _ => requireRole actor.permission.role .owner
  | .revokeServer _ => requireRole actor.permission.role .owner
  | .setApprovalPolicy _ => requireRole actor.permission.role .owner
  | .addDevice _ => none
  | .revokeDevice _ => none

/-- The role rule that depends on the target; `newRole` is the one a change_role establishes. -/
def targetRoleReason (newRole : Option Role) (actor : ActorContext) (target : ChainMember) :
    Option ChainInvalidReason :=
  if atLeast target.role .admin && actor.permission.role ≠ .owner then some .insufficientRole
  else if (newRole.any fun role => atLeast role .admin) && actor.permission.role ≠ .owner then
    some .insufficientRole
  else none

/-! ## Consensus rules -/

def isDeletedEnvironment (state : MutableChainState) (environmentId : EnvironmentId) : Bool :=
  ((state.environments.get? environmentId).bind (·.deletedAtSeq)).isSome

def liveEnvironmentReason (state : MutableChainState) (environmentId : EnvironmentId) :
    Option ChainInvalidReason :=
  if !state.environments.has environmentId then some .unknownEnvironment
  else if isDeletedEnvironment state environmentId then some .environmentDeleted
  else none

/-- Every id is checked for existence before any is checked for deletion. -/
def scopeEnvironmentsReason (ids : List EnvironmentId) (state : MutableChainState) :
    Option ChainInvalidReason :=
  if ids.any fun id => !state.environments.has id then some .unknownEnvironment
  else if ids.any fun id => isDeletedEnvironment state id then some .environmentDeleted
  else none

def scopeRoleReason (role : Role) (scopeKind : ScopeKind) : Option ChainInvalidReason :=
  if role = .owner && scopeKind ≠ .all then some .scopeRoleMismatch else none

def memberScopeReason (scope : ScopePayloadFields) (establishedRole : Role) (actor : ActorContext)
    (changed : EnvironmentSet) (state : MutableChainState) : Option ChainInvalidReason :=
  scopeEnvironmentsReason scope.scopeEnvironmentIds state <|>
    scopeRoleReason establishedRole scope.scopeKind <|>
    if scopeContainsEnvironmentSet actor.permission.scope changed then none else some .scopeNotContained

/-- The shared front half of remove_member and change_role: the target, or the reason. -/
def resolveTargetedOp (operation : ProposableOperation) (targetUserId : UserId) (newRole : Option Role)
    (actor : ActorContext) (state : MutableChainState) : Except ChainInvalidReason ChainMember :=
  match state.members.get? targetUserId with
  | none => .error .unknownTarget
  | some target =>
    match targetRoleReason newRole actor target with
    | some reason => .error reason
    | none =>
      if ownersRemovedBy operation (some target) = 1 && ownersCount state = 1 then .error .lastOwnerProtected
      else .ok target

def addMemberReason (p : AddMemberPayload) (actor : ActorContext) (state : MutableChainState) :
    Option ChainInvalidReason :=
  if state.members.has p.targetUserId then some .duplicateMember
  else if registersTakenKey state p.encPubHex p.sigPubHex then some .duplicateMemberKey
  else memberScopeReason p.toScopePayloadFields p.role actor (permissionChangeAddMember p) state

def changeRoleReason (p : ChangeRolePayload) (actor : ActorContext) (state : MutableChainState) :
    Option ChainInvalidReason :=
  match resolveTargetedOp (.changeRole p) p.targetUserId (some p.newRole) actor state with
  | .error reason => some reason
  | .ok target =>
    memberScopeReason p.toScopePayloadFields p.newRole actor (permissionChangeChangeRole p (some target)) state <|>
      if quorumReachableAfter (.changeRole p) state (some target) then none else some .approvalQuorumUnreachable

def removeMemberReason (p : RemoveMemberPayload) (actor : ActorContext) (state : MutableChainState) :
    Option ChainInvalidReason :=
  match resolveTargetedOp (.removeMember p) p.targetUserId none actor state with
  | .error reason => some reason
  | .ok target =>
    if !scopeContainsEnvironmentSet actor.permission.scope (permissionChangeRemoveMember (some target)) then
      some .scopeNotContained
    else if quorumReachableAfter (.removeMember p) state (some target) then none
    else some .approvalQuorumUnreachable

def addDeviceReason (p : AddDevicePayload) (actor : ActorContext) (state : MutableChainState) :
    Option ChainInvalidReason :=
  if registersTakenKey state p.encPubHex p.sigPubHex then some .duplicateMemberKey
  else
    scopeEnvironmentsReason p.scopeEnvironmentIds state <|>
      if capWithinCap { roleCap := p.roleCap, scope := memberScopeOf p.toScopePayloadFields }
          actor.device.toDeviceCap then none
      else some .deviceCapExceeded

def revokeDeviceReason (p : RevokeDevicePayload) (actor : ActorContext) (state : MutableChainState) :
    Option ChainInvalidReason :=
  match state.members.get? p.targetUserId with
  | none => some .unknownTarget
  | some target =>
    let self := decide (target.userId = actor.userId)
    if p.deviceFingerprintsHex.any fun fp => !target.devices.has fp then some .unknownDevice
    else
      (if self then none
        else requireRole actor.permission.role .admin <|> targetRoleReason none actor target) <|>
      if (target.devices.size : Int) - p.deviceFingerprintsHex.length < 1 then some .lastDeviceProtected
      else if !self && !scopeContainsEnvironmentSet actor.permission.scope (scopeAsEnvironmentSet target.scope) then
        some .scopeNotContained
      else none

/-- A server key's fingerprint: the first bytes of SHA-256 of the enc key alone. -/
def serverFingerprintHex (crypto : Crypto) (serverEncPubHex : JsString) : KeyFingerprintHex :=
  encodeHex ((crypto.sha256 ((decodeHex serverEncPubHex).getD [])).take fingerprintBytes)

def grantServerReason (crypto : Crypto) (p : GrantServerPayload) (state : MutableChainState) :
    Option ChainInvalidReason :=
  if serverFingerprintHex crypto p.serverEncPubHex ≠ p.serverKeyFingerprintHex then some .invalidPayload
  else if p.scopeEnvironmentIds.any fun id => isDeletedEnvironment state id then some .environmentDeleted
  else if (state.serverGrants.get? p.serverKeyFingerprintHex).any fun existing =>
      existing.scopeEnvironmentIds.any fun id => !p.scopeEnvironmentIds.contains id then
    some .grantScopeNarrowed
  else if state.memberEncPubs.has p.serverEncPubHex then some .duplicateServerKey
  else none

def createEnvironmentReason (p : CreateEnvironmentPayload) (actor : ActorContext) (state : MutableChainState) :
    Option ChainInvalidReason :=
  if state.environments.has p.environmentId then some .duplicateEnvironment
  else if scopeIncludesEnvironment actor.permission.scope p.environmentId then none
  else some .environmentOutOfScope

def rotateEpochReason (p : RotateEpochPayload) (actor : ActorContext) (state : MutableChainState) :
    Option ChainInvalidReason :=
  match state.environments.get? p.environmentId with
  | none => some .unknownEnvironment
  | some environment =>
    if environment.deletedAtSeq.isSome then some .environmentDeleted
    else if !scopeIncludesEnvironment actor.permission.scope p.environmentId then some .environmentOutOfScope
    else if p.newEpoch = environment.currentEpoch + 1 then none
    else some .epochOutOfSequence

def deleteEnvironmentReason (p : DeleteEnvironmentPayload) (actor : ActorContext) (state : MutableChainState) :
    Option ChainInvalidReason :=
  liveEnvironmentReason state p.environmentId <|>
    if scopeIncludesEnvironment actor.permission.scope p.environmentId then none else some .environmentOutOfScope

/-- Every tuple passes one stage before any enters the next. -/
def checkpointReason (environments : List CheckpointEnvironmentEntry) (actor : ActorContext)
    (state : MutableChainState) : Option ChainInvalidReason :=
  let stage (rejected : CheckpointEnvironmentEntry → Bool) (reason : ChainInvalidReason) :
      Option ChainInvalidReason := if environments.any rejected then some reason else none
  stage (fun tuple => !state.environments.has tuple.environmentId) .unknownEnvironment <|>
    stage (fun tuple => isDeletedEnvironment state tuple.environmentId) .environmentDeleted <|>
    stage (fun tuple => !scopeIncludesEnvironment actor.permission.scope tuple.environmentId)
      .environmentOutOfScope <|>
    stage (fun tuple => (state.environments.get? tuple.environmentId).map (·.currentEpoch) ≠ some tuple.epoch)
      .checkpointEpochMismatch <|>
    stage (fun tuple => (state.checkpoints.get? tuple.environmentId).any fun prior =>
      tuple.manifestVersion < prior.manifestVersion) .checkpointRegression

def consensusReason (crypto : Crypto) (operation : ProposableOperation) (actor : ActorContext)
    (state : MutableChainState) : Option ChainInvalidReason :=
  match operation with
  | .genesis _ => none
  | .addMember p => addMemberReason p actor state
  | .changeRole p => changeRoleReason p actor state
  | .removeMember p => removeMemberReason p actor state
  | .grantServer p => grantServerReason crypto p state
  | .revokeServer p => if state.serverGrants.has p.serverKeyFingerprintHex then none else some .unknownServerGrant
  | .createEnvironment p => createEnvironmentReason p actor state
  | .deleteEnvironment p => deleteEnvironmentReason p actor state
  | .rotateEpoch p => rotateEpochReason p actor state
  | .checkpoint p => checkpointReason p.environments actor state
  | .setApprovalPolicy p =>
    if quorumReachableAfter (.setApprovalPolicy p) state none then none else some .approvalQuorumUnreachable
  | .addDevice p => addDeviceReason p actor state
  | .revokeDevice p => revokeDeviceReason p actor state

end Maruhi.Chain
