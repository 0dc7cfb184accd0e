import Maruhi.Chain.Texts

/-!
# The verifier under other names

The rules compare texts and copy them, and look no further into them. Under an injective renaming of
the texts of a state and of an operation every rule refuses for the same reason, and an operation comes
to the renamed state.
-/

open Text OrderedMap

namespace Maruhi.Chain

/-! ## Renaming the texts of a state -/

section Rename
variable (f : JsString ↪ JsString)

def MemberScope.rename : MemberScope → MemberScope
  | .all => .all
  | .listed ids => .listed (ids.map f)

def EnvironmentSet.rename : EnvironmentSet → EnvironmentSet
  | .all => .all
  | .listed ids => .listed (ids.map f)

def DeviceCap.rename (cap : DeviceCap) : DeviceCap := { cap with scope := cap.scope.rename f }

def ChainDevice.rename (device : ChainDevice) : ChainDevice :=
  { device with scope := device.scope.rename f }

def EffectivePermission.rename (permission : EffectivePermission) : EffectivePermission :=
  { permission with scope := permission.scope.rename f }

def ChainMember.rename (member : ChainMember) : ChainMember where
  userId := f member.userId
  role := member.role
  scope := member.scope.rename f
  devices := member.devices.mapValues (ChainDevice.rename f)

def ActorContext.rename (actor : ActorContext) : ActorContext where
  userId := f actor.userId
  device := actor.device.rename f
  permission := actor.permission.rename f

def ServerGrant.rename (grant : ServerGrant) : ServerGrant :=
  { grant with
    scopeEnvironmentIds := grant.scopeEnvironmentIds.map f
    leasePolicy := grant.leasePolicy.map (·.mapTexts f) }

def ApprovalVote.rename (vote : ApprovalVote) : ApprovalVote := { vote with userId := f vote.userId }

def PendingProposal.rename (pending : PendingProposal) : PendingProposal :=
  { pending with
    proposerUserId := f pending.proposerUserId
    inner := pending.inner.mapTexts f
    approvals := pending.approvals.map (ApprovalVote.rename f) }

/-- The state under other names for its people and environments. -/
def MutableChainState.rename (state : MutableChainState) : MutableChainState :=
  { state with
    members := state.members.relabel f (ChainMember.rename f)
    serverGrants := state.serverGrants.mapValues (ServerGrant.rename f)
    environments := state.environments.relabel f id
    checkpoints := state.checkpoints.relabel f id
    pendingProposals := state.pendingProposals.mapValues (PendingProposal.rename f) }

def AppliedOperation.rename (applied : AppliedOperation) : AppliedOperation where
  operation := applied.operation.mapTexts f
  actorUserId := f applied.actorUserId

end Rename

section Equivariance
variable (f : JsString ↪ JsString) (crypto : Crypto)

/-! ## Lookups -/

theorem get?_members_rename (state : MutableChainState) (userId : UserId) :
    (state.rename f).members.get? (f userId) = (state.members.get? userId).map (ChainMember.rename f) :=
  get?_relabel _ _

@[simp] theorem get?_environments_rename (state : MutableChainState) (id : EnvironmentId) :
    (state.rename f).environments.get? (f id) = state.environments.get? id := by
  simp [MutableChainState.rename]

@[simp] theorem get?_checkpoints_rename (state : MutableChainState) (id : EnvironmentId) :
    (state.rename f).checkpoints.get? (f id) = state.checkpoints.get? id := by
  simp [MutableChainState.rename]

@[simp] theorem has_environments_rename (state : MutableChainState) (id : EnvironmentId) :
    (state.rename f).environments.has (f id) = state.environments.has id := by
  simp [MutableChainState.rename]

/-! ## Scopes -/

@[simp] theorem contains_map_embedding (ids : List JsString) (id : JsString) :
    (ids.map f).contains (f id) = ids.contains id := by
  simp

theorem memberScopeOf_rename (scope : ScopePayloadFields) :
    memberScopeOf { scope with scopeEnvironmentIds := scope.scopeEnvironmentIds.map f } =
      (memberScopeOf scope).rename f := by
  unfold memberScopeOf
  cases scope.scopeKind <;> simp [MemberScope.rename]

@[simp] theorem scopeIncludesEnvironment_rename (scope : MemberScope) (e : EnvironmentId) :
    scopeIncludesEnvironment (scope.rename f) (f e) = scopeIncludesEnvironment scope e := by
  cases scope <;> simp [scopeIncludesEnvironment, MemberScope.rename, Function.comp_def]

theorem scopeWithout_rename (scope : MemberScope) (e : EnvironmentId) :
    scopeWithout (scope.rename f) (f e) = (scopeWithout scope e).rename f := by
  cases scope with
  | all => rfl
  | listed ids =>
    simp only [scopeWithout, MemberScope.rename, List.any_map, Function.comp_def, EmbeddingLike.apply_eq_iff_eq]
    split_ifs
    · simp [List.filter_map, Function.comp_def]
    · rfl

theorem scopeAsEnvironmentSet_rename (scope : MemberScope) :
    scopeAsEnvironmentSet (scope.rename f) = (scopeAsEnvironmentSet scope).rename f := by
  cases scope <;> rfl

theorem unionEnvironmentSets_rename (a b : EnvironmentSet) :
    unionEnvironmentSets (a.rename f) (b.rename f) = (unionEnvironmentSets a b).rename f := by
  cases a <;> cases b <;> simp [unionEnvironmentSets, EnvironmentSet.rename]

theorem symmetricDifferenceEnvironmentSets_rename (a b : EnvironmentSet) :
    symmetricDifferenceEnvironmentSets (a.rename f) (b.rename f) =
      (symmetricDifferenceEnvironmentSets a b).rename f := by
  cases a <;> cases b <;>
    simp [symmetricDifferenceEnvironmentSets, EnvironmentSet.rename, List.filter_map, Function.comp_def]

@[simp] theorem scopeContainsEnvironmentSet_rename (scope : MemberScope) (changed : EnvironmentSet) :
    scopeContainsEnvironmentSet (scope.rename f) (changed.rename f) = scopeContainsEnvironmentSet scope changed := by
  cases scope <;> cases changed <;>
    simp [scopeContainsEnvironmentSet, MemberScope.rename, EnvironmentSet.rename, List.all_map, Function.comp_def]

theorem intersectScopes_rename (a b : MemberScope) :
    intersectScopes (a.rename f) (b.rename f) = (intersectScopes a b).rename f := by
  cases a <;> cases b <;> simp [intersectScopes, MemberScope.rename, List.filter_map, Function.comp_def]

@[simp] theorem capWithinCap_rename (candidate signer : DeviceCap) :
    capWithinCap (candidate.rename f) (signer.rename f) = capWithinCap candidate signer := by
  obtain ⟨role, scope⟩ := candidate
  obtain ⟨role', scope'⟩ := signer
  cases scope <;> cases scope' <;> simp [capWithinCap, DeviceCap.rename, MemberScope.rename, Function.comp_def]

/-! ## People and actors -/

theorem effectivePermissionOf_rename (member : ChainMember) (device : ChainDevice) :
    effectivePermissionOf (member.rename f) (device.rename f).toDeviceCap =
      (effectivePermissionOf member device.toDeviceCap).rename f := by
  simp only [effectivePermissionOf, permissionUnder, ChainMember.rename, ChainDevice.rename, EffectivePermission.rename,
    intersectScopes_rename]

theorem actorContextOf_rename (member : ChainMember) (device : ChainDevice) :
    actorContextOf (member.rename f) (device.rename f) = (actorContextOf member device).rename f := by
  simp only [actorContextOf, effectivePermissionOf_rename, ActorContext.rename]
  rfl

theorem deviceOf_rename (members : OrderedMap UserId ChainMember) (userId : UserId) (fp : KeyFingerprintHex) :
    deviceOf (members.relabel f (ChainMember.rename f)) (f userId) fp =
      (deviceOf members userId fp).map (Prod.map (ChainMember.rename f) (ChainDevice.rename f)) := by
  simp only [deviceOf, get?_relabel]
  cases members.get? userId with
  | none => rfl
  | some member =>
    simp only [Option.map_some, Option.bind_eq_bind, Option.bind_some, ChainMember.rename, get?_mapValues]
    cases member.devices.get? fp <;> rfl

@[simp] theorem countableVote_rename (members : OrderedMap UserId ChainMember) (vote : ApprovalVote) :
    countableVote (members.relabel f (ChainMember.rename f)) (vote.rename f) = countableVote members vote := by
  simp only [countableVote, ApprovalVote.rename, deviceOf_rename]
  cases deviceOf members vote.userId vote.keyFingerprintHex with
  | none => rfl
  | some found =>
    obtain ⟨member, device⟩ := found
    simp only [Option.map_some, Prod.map, effectivePermissionOf_rename]
    rfl

@[simp] theorem countOwnerVotes_rename (state : MutableChainState) (votes : List ApprovalVote) :
    countOwnerVotes (state.rename f) (votes.map (ApprovalVote.rename f)) = countOwnerVotes state votes := by
  have hvoters : ((votes.map (ApprovalVote.rename f)).filter (countableVote (state.rename f).members)).map (·.userId) =
      ((votes.filter (countableVote state.members)).map (·.userId)).map f := by
    simp only [List.filter_map, List.map_map, MutableChainState.rename, Function.comp_def, countableVote_rename]
    rfl
  rw [countOwnerVotes, ownerVotersOf, hvoters, ← relabel_setOf, size_relabel, countOwnerVotes, ownerVotersOf]

@[simp] theorem ownersCount_rename (state : MutableChainState) : ownersCount (state.rename f) = ownersCount state := by
  simp only [ownersCount, MutableChainState.rename, values_relabel, List.countP_map]
  rfl

theorem approvalSignersOf_rename (pending : PendingProposal) :
    approvalSignersOf (pending.rename f) = (approvalSignersOf pending).map (ApprovalVote.rename f) := by
  by_cases h : pending.proposerRoleAtProposal = .owner <;>
    simp [approvalSignersOf, PendingProposal.rename, h, ApprovalVote.rename]

/-! ## Rules -/

@[simp] theorem roleReason_rename (operation : ProposableOperation) (actor : ActorContext) :
    roleReason (operation.mapTexts f) (actor.rename f) = roleReason operation actor := by
  cases operation <;> rfl

@[simp] theorem isApprovalTarget_rename (operation : ProposableOperation) (policy : Option ApprovalPolicy) :
    isApprovalTarget (operation.mapTexts f) policy = isApprovalTarget operation policy := by
  cases operation <;> rfl

theorem ownersRemovedBy_rename (operation : ProposableOperation) (target : Option ChainMember) :
    ownersRemovedBy (operation.mapTexts f) (target.map (ChainMember.rename f)) = ownersRemovedBy operation target := by
  have hrole : (target.map (ChainMember.rename f)).map (·.role) = target.map (·.role) := by
    cases target <;> rfl
  unfold ownersRemovedBy
  rw [hrole]
  cases operation <;> rfl

theorem quorumReachableAfter_rename (operation : ProposableOperation) (state : MutableChainState)
    (target : Option ChainMember) :
    quorumReachableAfter (operation.mapTexts f) (state.rename f) (target.map (ChainMember.rename f)) =
      quorumReachableAfter operation state target := by
  unfold quorumReachableAfter
  rw [ownersCount_rename, ownersRemovedBy_rename]
  cases operation <;> rfl

@[simp] theorem targetRoleReason_rename (newRole : Option Role) (actor : ActorContext) (target : ChainMember) :
    targetRoleReason newRole (actor.rename f) (target.rename f) = targetRoleReason newRole actor target := rfl

@[simp] theorem isDeletedEnvironment_rename (state : MutableChainState) (e : EnvironmentId) :
    isDeletedEnvironment (state.rename f) (f e) = isDeletedEnvironment state e := by
  simp [isDeletedEnvironment]

@[simp] theorem liveEnvironmentReason_rename (state : MutableChainState) (e : EnvironmentId) :
    liveEnvironmentReason (state.rename f) (f e) = liveEnvironmentReason state e := by
  simp [liveEnvironmentReason]

@[simp] theorem scopeEnvironmentsReason_rename (ids : List EnvironmentId) (state : MutableChainState) :
    scopeEnvironmentsReason (ids.map f) (state.rename f) = scopeEnvironmentsReason ids state := by
  simp [scopeEnvironmentsReason, Function.comp_def]

theorem memberScopeReason_rename (scope : ScopePayloadFields) (role : Role) (actor : ActorContext)
    (changed : EnvironmentSet) (state : MutableChainState) :
    memberScopeReason { scope with scopeEnvironmentIds := scope.scopeEnvironmentIds.map f } role (actor.rename f)
        (changed.rename f) (state.rename f) =
      memberScopeReason scope role actor changed state := by
  simp [memberScopeReason, ActorContext.rename, EffectivePermission.rename]

theorem resolveTargetedOp_rename (operation : ProposableOperation) (userId : UserId) (newRole : Option Role)
    (actor : ActorContext) (state : MutableChainState) :
    resolveTargetedOp (operation.mapTexts f) (f userId) newRole (actor.rename f) (state.rename f) =
      (resolveTargetedOp operation userId newRole actor state).map (ChainMember.rename f) := by
  rw [resolveTargetedOp, resolveTargetedOp, get?_members_rename]
  cases state.members.get? userId with
  | none => rfl
  | some target =>
    have howners := ownersRemovedBy_rename f operation (some target)
    simp only [Option.map_some, targetRoleReason_rename, ownersCount_rename] at howners ⊢
    rw [howners]
    cases targetRoleReason newRole actor target with
    | some reason => rfl
    | none => dsimp only; split_ifs <;> rfl

theorem registersTakenKey_rename (state : MutableChainState) (enc sig : JsString) :
    registersTakenKey (state.rename f) enc sig = registersTakenKey state enc sig := rfl

theorem addMemberReason_rename (p : AddMemberPayload) (actor : ActorContext) (state : MutableChainState) :
    addMemberReason { p with targetUserId := f p.targetUserId, scopeEnvironmentIds := p.scopeEnvironmentIds.map f }
      (actor.rename f) (state.rename f) = addMemberReason p actor state := by
  have hhas : (state.rename f).members.has (f p.targetUserId) = state.members.has p.targetUserId := has_relabel _ _
  simp only [addMemberReason, hhas, registersTakenKey_rename, permissionChangeAddMember, memberScopeOf_rename,
    scopeAsEnvironmentSet_rename, memberScopeReason_rename]

theorem permissionChangeChangeRole_rename (p : ChangeRolePayload) (target : ChainMember) :
    permissionChangeChangeRole
        { p with targetUserId := f p.targetUserId, scopeEnvironmentIds := p.scopeEnvironmentIds.map f }
        (some (target.rename f)) =
      (permissionChangeChangeRole p (some target)).rename f := by
  simp only [permissionChangeChangeRole, memberScopeOf_rename, Option.map_some, Option.getD_some, ChainMember.rename,
    scopeAsEnvironmentSet_rename]
  split_ifs
  · rw [symmetricDifferenceEnvironmentSets_rename]
  · rw [unionEnvironmentSets_rename]

theorem changeRoleReason_rename (p : ChangeRolePayload) (actor : ActorContext) (state : MutableChainState) :
    changeRoleReason { p with targetUserId := f p.targetUserId, scopeEnvironmentIds := p.scopeEnvironmentIds.map f }
      (actor.rename f) (state.rename f) = changeRoleReason p actor state := by
  have hresolve := resolveTargetedOp_rename f (.changeRole p) p.targetUserId (some p.newRole) actor state
  have hquorum := fun target => quorumReachableAfter_rename f (.changeRole p) state (some target)
  simp only [ProposableOperation.mapTexts, Option.map_some] at hresolve hquorum
  unfold changeRoleReason
  rw [hresolve]
  cases resolveTargetedOp (.changeRole p) p.targetUserId (some p.newRole) actor state with
  | error reason => rfl
  | ok target =>
    simp only [Except.map, permissionChangeChangeRole_rename, memberScopeReason_rename, hquorum]

theorem removeMemberReason_rename (p : RemoveMemberPayload) (actor : ActorContext) (state : MutableChainState) :
    removeMemberReason { targetUserId := f p.targetUserId } (actor.rename f) (state.rename f) =
      removeMemberReason p actor state := by
  have hresolve := resolveTargetedOp_rename f (.removeMember p) p.targetUserId none actor state
  have hquorum := fun target => quorumReachableAfter_rename f (.removeMember p) state (some target)
  simp only [ProposableOperation.mapTexts, Option.map_some] at hresolve hquorum
  unfold removeMemberReason
  rw [hresolve]
  cases resolveTargetedOp (.removeMember p) p.targetUserId none actor state with
  | error reason => rfl
  | ok target =>
    have hchange : permissionChangeRemoveMember (some (target.rename f)) =
        (permissionChangeRemoveMember (some target)).rename f := scopeAsEnvironmentSet_rename f target.scope
    simp only [Except.map, hchange, hquorum, ActorContext.rename, EffectivePermission.rename,
      scopeContainsEnvironmentSet_rename]

theorem addDeviceReason_rename (p : AddDevicePayload) (actor : ActorContext) (state : MutableChainState) :
    addDeviceReason { p with scopeEnvironmentIds := p.scopeEnvironmentIds.map f } (actor.rename f) (state.rename f) =
      addDeviceReason p actor state := by
  have hcap := capWithinCap_rename f { roleCap := p.roleCap, scope := memberScopeOf p.toScopePayloadFields }
    actor.device.toDeviceCap
  simp only [DeviceCap.rename] at hcap
  simp only [addDeviceReason, registersTakenKey_rename, scopeEnvironmentsReason_rename, memberScopeOf_rename]
  exact hcap ▸ rfl

theorem revokeDeviceReason_rename (p : RevokeDevicePayload) (actor : ActorContext) (state : MutableChainState) :
    revokeDeviceReason { p with targetUserId := f p.targetUserId } (actor.rename f) (state.rename f) =
      revokeDeviceReason p actor state := by
  simp only [revokeDeviceReason, get?_members_rename]
  cases state.members.get? p.targetUserId with
  | none => rfl
  | some target =>
    simp only [Option.map_some, ChainMember.rename, ActorContext.rename, EffectivePermission.rename, has_mapValues,
      size_mapValues, EmbeddingLike.apply_eq_iff_eq, scopeAsEnvironmentSet_rename, scopeContainsEnvironmentSet_rename]
    rfl

theorem grantServerReason_rename (p : GrantServerPayload) (state : MutableChainState) :
    grantServerReason crypto { p with
      scopeEnvironmentIds := p.scopeEnvironmentIds.map f, leasePolicy := p.leasePolicy.map (·.mapTexts f) }
      (state.rename f) = grantServerReason crypto p state := by
  have hget : (state.rename f).serverGrants.get? p.serverKeyFingerprintHex =
      (state.serverGrants.get? p.serverKeyFingerprintHex).map (ServerGrant.rename f) := get?_mapValues _ _ _
  simp only [grantServerReason, hget, List.any_map, Function.comp_def, isDeletedEnvironment_rename, Option.any_map,
    ServerGrant.rename, contains_map_embedding]
  rfl

theorem createEnvironmentReason_rename (p : CreateEnvironmentPayload) (actor : ActorContext)
    (state : MutableChainState) :
    createEnvironmentReason { p with environmentId := f p.environmentId } (actor.rename f) (state.rename f) =
      createEnvironmentReason p actor state := by
  simp [createEnvironmentReason, ActorContext.rename, EffectivePermission.rename]

theorem rotateEpochReason_rename (p : RotateEpochPayload) (actor : ActorContext) (state : MutableChainState) :
    rotateEpochReason { p with environmentId := f p.environmentId, reason := f p.reason } (actor.rename f)
      (state.rename f) = rotateEpochReason p actor state := by
  simp only [rotateEpochReason, get?_environments_rename, ActorContext.rename, EffectivePermission.rename,
    scopeIncludesEnvironment_rename]

theorem deleteEnvironmentReason_rename (p : DeleteEnvironmentPayload) (actor : ActorContext)
    (state : MutableChainState) :
    deleteEnvironmentReason { environmentId := f p.environmentId } (actor.rename f) (state.rename f) =
      deleteEnvironmentReason p actor state := by
  simp [deleteEnvironmentReason, ActorContext.rename, EffectivePermission.rename]

theorem checkpointReason_rename (tuples : List CheckpointEnvironmentEntry) (actor : ActorContext)
    (state : MutableChainState) :
    checkpointReason (tuples.map (·.mapTexts f)) (actor.rename f) (state.rename f) =
      checkpointReason tuples actor state := by
  simp only [checkpointReason, List.any_map, Function.comp_def, CheckpointEnvironmentEntry.mapTexts,
    has_environments_rename, isDeletedEnvironment_rename, ActorContext.rename, EffectivePermission.rename,
    scopeIncludesEnvironment_rename, get?_environments_rename, get?_checkpoints_rename]

@[simp] theorem consensusReason_rename (operation : ProposableOperation) (actor : ActorContext)
    (state : MutableChainState) :
    consensusReason crypto (operation.mapTexts f) (actor.rename f) (state.rename f) =
      consensusReason crypto operation actor state := by
  cases operation with
  | genesis p => rfl
  | addMember p => exact addMemberReason_rename f p actor state
  | removeMember p => exact removeMemberReason_rename f p actor state
  | changeRole p => exact changeRoleReason_rename f p actor state
  | createEnvironment p => exact createEnvironmentReason_rename f p actor state
  | deleteEnvironment p => exact deleteEnvironmentReason_rename f p actor state
  | rotateEpoch p => exact rotateEpochReason_rename f p actor state
  | grantServer p => exact grantServerReason_rename f crypto p state
  | revokeServer p =>
    have hhas : (state.rename f).serverGrants.has p.serverKeyFingerprintHex =
        state.serverGrants.has p.serverKeyFingerprintHex := has_mapValues _ _
    simp only [ProposableOperation.mapTexts, consensusReason, hhas]
  | checkpoint p => exact checkpointReason_rename f p.environments actor state
  | setApprovalPolicy p =>
    have hquorum := quorumReachableAfter_rename f (.setApprovalPolicy p) state none
    simp only [ProposableOperation.mapTexts, Option.map_none] at hquorum
    simp only [ProposableOperation.mapTexts, consensusReason, hquorum]
  | addDevice p => exact addDeviceReason_rename f p actor state
  | revokeDevice p => exact revokeDeviceReason_rename f p actor state

/-! ## Operations -/

theorem setMember_rename (state : MutableChainState) (userId : UserId) (member : ChainMember) :
    setMember (state.rename f) (f userId) (member.rename f) = (setMember state userId member).rename f := by
  simp [setMember, MutableChainState.rename]

theorem indexDeviceKeys_rename (state : MutableChainState) (device : ChainDevice) :
    indexDeviceKeys (state.rename f) (device.rename f) = (indexDeviceKeys state device).rename f := rfl

theorem unindexDeviceKeys_rename (state : MutableChainState) (device : ChainDevice) :
    unindexDeviceKeys (state.rename f) (device.rename f) = (unindexDeviceKeys state device).rename f := rfl

theorem firstDeviceOf_rename (enc sig : JsString) (fp : KeyFingerprintHex) (seq : Nat) :
    (firstDeviceOf enc sig fp seq).rename f = firstDeviceOf enc sig fp seq := rfl

theorem soleDevice_rename (device : ChainDevice) :
    soleDevice (device.rename f) = (soleDevice device).mapValues (ChainDevice.rename f) :=
  (mapValues_set empty device.keyFingerprintHex device).symm

theorem applyGenesis_rename (p : GenesisPayload) (actor : ChainActor) (seq : Nat) (state : MutableChainState) :
    applyGenesis p (actor.mapTexts f) seq (state.rename f) = (applyGenesis p actor seq state).rename f := by
  have hdevice := firstDeviceOf_rename f p.encPubHex p.sigPubHex actor.keyFingerprintHex seq
  have hdevices := soleDevice_rename f (firstDeviceOf p.encPubHex p.sigPubHex actor.keyFingerprintHex seq)
  unfold applyGenesis
  dsimp only
  rw [← indexDeviceKeys_rename, ← setMember_rename, ChainMember.rename, ← hdevices, hdevice]
  rfl

theorem applyAddMember_rename (p : AddMemberPayload) (state : MutableChainState) (seq : Nat) :
    applyAddMember crypto { p with
      targetUserId := f p.targetUserId, scopeEnvironmentIds := p.scopeEnvironmentIds.map f } (state.rename f) seq =
      (applyAddMember crypto p state seq).rename f := by
  have hdevices := soleDevice_rename f
    (firstDeviceOf p.encPubHex p.sigPubHex (userFingerprintHex crypto p.encPubHex p.sigPubHex) seq)
  rw [firstDeviceOf_rename] at hdevices
  unfold applyAddMember
  dsimp only
  rw [← indexDeviceKeys_rename, ← setMember_rename, ChainMember.rename, ← hdevices, firstDeviceOf_rename,
    memberScopeOf_rename]

theorem addedDevice_rename (p : AddDevicePayload) (seq : Nat) :
    addedDevice crypto { p with scopeEnvironmentIds := p.scopeEnvironmentIds.map f } seq =
      (addedDevice crypto p seq).rename f := by
  simp only [addedDevice, memberScopeOf_rename, ChainDevice.rename]

theorem applyAddDevice_rename (p : AddDevicePayload) (state : MutableChainState) (seq : Nat) (userId : UserId) :
    applyAddDevice crypto { p with scopeEnvironmentIds := p.scopeEnvironmentIds.map f } (state.rename f) seq
      (f userId) = (applyAddDevice crypto p state seq userId).rename f := by
  simp only [applyAddDevice, get?_members_rename, addedDevice_rename]
  cases state.members.get? userId with
  | none => rfl
  | some member =>
    dsimp only [Option.map_some]
    rw [← indexDeviceKeys_rename, ← setMember_rename]
    simp only [ChainMember.rename, mapValues_set]
    rfl

theorem foldl_revokeOne_rename (fps : List KeyFingerprintHex)
    (acc : OrderedMap KeyFingerprintHex ChainDevice × MutableChainState) :
    fps.foldl revokeOne (acc.1.mapValues (ChainDevice.rename f), acc.2.rename f) =
      Prod.map (mapValues (ChainDevice.rename f)) (MutableChainState.rename f) (fps.foldl revokeOne acc) := by
  refine List.foldl_hom (Prod.map (mapValues (ChainDevice.rename f)) (MutableChainState.rename f)) fun acc fp => ?_
  simp only [revokeOne, Prod.map_fst, Prod.map_snd, get?_mapValues]
  cases acc.1.get? fp with
  | none => rfl
  | some device => simp [unindexDeviceKeys_rename, mapValues_delete]

theorem applyRevokeDevice_rename (p : RevokeDevicePayload) (state : MutableChainState) :
    applyRevokeDevice { p with targetUserId := f p.targetUserId } (state.rename f) =
      (applyRevokeDevice p state).rename f := by
  simp only [applyRevokeDevice, get?_members_rename]
  cases state.members.get? p.targetUserId with
  | none => rfl
  | some target =>
    have hfold := foldl_revokeOne_rename f p.deviceFingerprintsHex (target.devices, state)
    simp only [Option.map_some, ChainMember.rename] at hfold ⊢
    rw [hfold, ← setMember_rename]
    rfl

theorem applyChangeRole_rename (p : ChangeRolePayload) (state : MutableChainState) :
    applyChangeRole { p with targetUserId := f p.targetUserId, scopeEnvironmentIds := p.scopeEnvironmentIds.map f }
      (state.rename f) = (applyChangeRole p state).rename f := by
  simp only [applyChangeRole, get?_members_rename, memberScopeOf_rename]
  cases state.members.get? p.targetUserId with
  | none => rfl
  | some target =>
    exact setMember_rename f state target.userId
      { target with role := p.newRole, scope := memberScopeOf p.toScopePayloadFields }

theorem applyRemoveMember_rename (p : RemoveMemberPayload) (state : MutableChainState) :
    applyRemoveMember { targetUserId := f p.targetUserId } (state.rename f) = (applyRemoveMember p state).rename f := by
  simp only [applyRemoveMember, get?_members_rename]
  cases state.members.get? p.targetUserId with
  | none => rfl
  | some target =>
    have hstate : { state.rename f with members := (state.rename f).members.delete (f target.userId) } =
        MutableChainState.rename f { state with members := state.members.delete target.userId } := by
      simp [MutableChainState.rename]
    simp only [Option.map_some, ChainMember.rename, values_mapValues, List.foldl_map, hstate]
    exact List.foldl_hom (MutableChainState.rename f) fun s device => unindexDeviceKeys_rename f s device

theorem applyGrantServer_rename (p : GrantServerPayload) (state : MutableChainState) (seq : Nat) :
    applyGrantServer { p with
      scopeEnvironmentIds := p.scopeEnvironmentIds.map f, leasePolicy := p.leasePolicy.map (·.mapTexts f) }
      (state.rename f) seq = (applyGrantServer p state seq).rename f := by
  simp [applyGrantServer, MutableChainState.rename, mapValues_set, ServerGrant.rename]

theorem pruneMember_rename (e : EnvironmentId) (member : ChainMember) :
    pruneMember (f e) (member.rename f) = (pruneMember e member).rename f := by
  simp only [pruneMember, ChainMember.rename, scopeWithout_rename, mapValues_mapValues]
  congr 2
  funext device
  simp [pruneDevice, ChainDevice.rename, scopeWithout_rename]

theorem pruneGrant_rename (e : EnvironmentId) (grant : ServerGrant) :
    pruneGrant (f e) (grant.rename f) = (pruneGrant e grant).rename f := by
  simp [pruneGrant, ServerGrant.rename, List.filter_map, Function.comp_def]

theorem applyDeleteEnvironment_rename (p : DeleteEnvironmentPayload) (state : MutableChainState) (seq : Nat) :
    applyDeleteEnvironment { environmentId := f p.environmentId } (state.rename f) seq =
      (applyDeleteEnvironment p state seq).rename f := by
  have hmembers : (state.rename f).members.values.foldl
      (fun members member => members.set member.userId (pruneMember (f p.environmentId) member))
        (state.rename f).members =
      (state.members.values.foldl
        (fun members member => members.set member.userId (pruneMember p.environmentId member))
        state.members).relabel f (ChainMember.rename f) := by
    simp only [MutableChainState.rename, values_relabel, List.foldl_map, pruneMember_rename]
    exact List.foldl_hom (relabel f (ChainMember.rename f)) fun m member => (relabel_set m _ _).symm
  have hgrants : (state.rename f).serverGrants.values.foldl
      (fun grants grant => grants.set grant.serverKeyFingerprintHex (pruneGrant (f p.environmentId) grant))
        (state.rename f).serverGrants =
      (state.serverGrants.values.foldl
        (fun grants grant => grants.set grant.serverKeyFingerprintHex (pruneGrant p.environmentId grant))
        state.serverGrants).mapValues (ServerGrant.rename f) := by
    simp only [MutableChainState.rename, values_mapValues, List.foldl_map, pruneGrant_rename]
    exact List.foldl_hom (mapValues (ServerGrant.rename f)) fun m grant => (mapValues_set m _ _).symm
  simp only [applyDeleteEnvironment, get?_environments_rename]
  cases state.environments.get? p.environmentId with
  | none => rfl
  | some environment =>
    dsimp only
    rw [hmembers, hgrants]
    simp [MutableChainState.rename]

theorem applyCreateEnvironment_rename (p : CreateEnvironmentPayload) (state : MutableChainState) (seq : Nat) :
    applyCreateEnvironment { p with environmentId := f p.environmentId } (state.rename f) seq =
      (applyCreateEnvironment p state seq).rename f := by
  simp [applyCreateEnvironment, MutableChainState.rename]

theorem applyRotateEpoch_rename (p : RotateEpochPayload) (state : MutableChainState) (seq : Nat) :
    applyRotateEpoch { p with environmentId := f p.environmentId, reason := f p.reason } (state.rename f) seq =
      (applyRotateEpoch p state seq).rename f := by
  simp only [applyRotateEpoch, get?_environments_rename]
  cases state.environments.get? p.environmentId with
  | none => rfl
  | some environment => simp [MutableChainState.rename]

theorem applyCheckpoint_rename (p : CheckpointPayload) (state : MutableChainState) (seq : Nat) :
    applyCheckpoint { p with environments := p.environments.map (·.mapTexts f) } (state.rename f) seq =
      (applyCheckpoint p state seq).rename f := by
  have hfold : (p.environments.map (·.mapTexts f)).foldl
      (fun checkpoints tuple => checkpoints.set tuple.environmentId (checkpointStateOf tuple seq))
        (state.rename f).checkpoints =
      (p.environments.foldl (fun checkpoints tuple => checkpoints.set tuple.environmentId (checkpointStateOf tuple seq))
        state.checkpoints).relabel f id := by
    rw [List.foldl_map]
    exact List.foldl_hom (relabel f id) fun m tuple => (relabel_set m _ _).symm
  unfold applyCheckpoint
  dsimp only
  rw [hfold]
  rfl

theorem applyOperation_rename (operation : ProposableOperation) (state : MutableChainState) (seq : Nat)
    (userId : UserId) :
    applyOperation crypto (operation.mapTexts f) (state.rename f) seq (f userId) =
      (applyOperation crypto operation state seq userId).rename f := by
  cases operation with
  | genesis p => rfl
  | addMember p => exact applyAddMember_rename f crypto p state seq
  | removeMember p => exact applyRemoveMember_rename f p state
  | changeRole p => exact applyChangeRole_rename f p state
  | createEnvironment p => exact applyCreateEnvironment_rename f p state seq
  | deleteEnvironment p => exact applyDeleteEnvironment_rename f p state seq
  | rotateEpoch p => exact applyRotateEpoch_rename f p state seq
  | grantServer p => exact applyGrantServer_rename f p state seq
  | revokeServer p =>
    simp [ProposableOperation.mapTexts, applyOperation, applyRevokeServer, MutableChainState.rename, mapValues_delete]
  | checkpoint p => exact applyCheckpoint_rename f p state seq
  | setApprovalPolicy p => rfl
  | addDevice p => exact applyAddDevice_rename f crypto p state seq userId
  | revokeDevice p => exact applyRevokeDevice_rename f p state

end Equivariance

end Maruhi.Chain
