import Maruhi.Chain.Rules

/-!
# What it means to pass the consensus rules

One structure per operation, with the facts its rule has checked when it refuses nothing.
-/

namespace Maruhi.Chain

theorem checks_eq_none {a b : Option ChainInvalidReason} : (a <|> b) = none ↔ a = none ∧ b = none := by
  cases a <;> simp

theorem refuse_eq_none {c : Prop} [Decidable c] {reason : ChainInvalidReason} :
    (if c then some reason else none) = none ↔ ¬ c := by
  split_ifs with h <;> simp [h]

theorem refuse_else_eq_none {c : Prop} [Decidable c] {reason : ChainInvalidReason}
    {next : Option ChainInvalidReason} : (if c then some reason else next) = none ↔ ¬ c ∧ next = none := by
  split_ifs with h <;> simp [h]

theorem require_eq_none {c : Prop} [Decidable c] {reason : ChainInvalidReason} :
    (if c then none else some reason) = none ↔ c := by
  split_ifs with h <;> simp [h]

/-- The environment exists and is not deleted. -/
def Live (s : MutableChainState) (e : EnvironmentId) : Prop :=
  ∃ environment, s.environments.get? e = some environment ∧ environment.deletedAtSeq = none

theorem live_iff (s : MutableChainState) (e : EnvironmentId) :
    Live s e ↔ s.environments.has e = true ∧ isDeletedEnvironment s e = false := by
  simp only [Live, OrderedMap.has, isDeletedEnvironment]
  cases s.environments.get? e with
  | none => simp
  | some environment => cases environment.deletedAtSeq <;> simp

theorem liveEnvironmentReason_eq_none (s : MutableChainState) (e : EnvironmentId) :
    liveEnvironmentReason s e = none ↔ Live s e := by
  rw [live_iff]
  unfold liveEnvironmentReason
  split_ifs with h1 h2 <;> simp_all

theorem scopeEnvironmentsReason_eq_none {ids : List EnvironmentId} {s : MutableChainState} :
    scopeEnvironmentsReason ids s = none ↔ ∀ id ∈ ids, Live s id := by
  unfold scopeEnvironmentsReason
  simp only [live_iff]
  split_ifs with h1 h2
  · simp only [List.any_eq_true, Bool.not_eq_true'] at h1
    obtain ⟨id, hid, hhas⟩ := h1
    simp only [false_iff, not_forall]
    exact ⟨id, hid, by simp [hhas]⟩
  · simp only [List.any_eq_true] at h2
    obtain ⟨id, hid, hdel⟩ := h2
    simp only [false_iff, not_forall]
    exact ⟨id, hid, by simp [hdel]⟩
  · simp only [List.any_eq_true, not_exists, not_and, Bool.not_eq_true, Bool.not_eq_false'] at h1 h2
    simp only [true_iff]
    exact fun id hid => ⟨h1 id hid, h2 id hid⟩

theorem requireRole_eq_none {actual minimum : Role} :
    requireRole actual minimum = none ↔ roleRank minimum ≤ roleRank actual := by
  unfold requireRole atLeast
  split_ifs with h <;> simpa using h

theorem registersTakenKey_eq_false {s : MutableChainState} {enc sig : JsString} :
    registersTakenKey s enc sig = false ↔ s.memberEncPubs.get? enc = none ∧ s.memberSigPubs.get? sig = none ∧
      s.namedServerKeys.get? enc = none := by
  simp [registersTakenKey, OrderedMap.has_eq_false_iff, and_assoc]

/-! ## Scopes and targets -/

structure MemberScopeOk (scope : ScopePayloadFields) (role : Role) (actor : ActorContext)
    (changed : EnvironmentSet) (s : MutableChainState) : Prop where
  live : ∀ id ∈ scope.scopeEnvironmentIds, Live s id
  ownerAll : role = .owner → scope.scopeKind = .all
  contained : scopeContainsEnvironmentSet actor.permission.scope changed = true

theorem memberScopeReason_eq_none {scope : ScopePayloadFields} {role : Role} {actor : ActorContext}
    {changed : EnvironmentSet} {s : MutableChainState}
    (h : memberScopeReason scope role actor changed s = none) : MemberScopeOk scope role actor changed s := by
  rw [memberScopeReason, checks_eq_none, checks_eq_none, scopeEnvironmentsReason_eq_none, scopeRoleReason,
    refuse_eq_none, require_eq_none] at h
  refine ⟨h.1, ?_, h.2.2⟩
  intro hrole
  simpa [hrole] using h.2.1

structure TargetOk (operation : ProposableOperation) (targetUserId : UserId) (newRole : Option Role)
    (actor : ActorContext) (s : MutableChainState) (target : ChainMember) : Prop where
  member : s.members.get? targetUserId = some target
  role : targetRoleReason newRole actor target = none
  lastOwner : ownersRemovedBy operation (some target) = 1 → ownersCount s ≠ 1

theorem resolveTargetedOp_ok {operation : ProposableOperation} {targetUserId : UserId} {newRole : Option Role}
    {actor : ActorContext} {s : MutableChainState} {target : ChainMember}
    (h : resolveTargetedOp operation targetUserId newRole actor s = .ok target) :
    TargetOk operation targetUserId newRole actor s target := by
  unfold resolveTargetedOp at h
  split at h
  · cases h
  · rename_i t ht
    split at h
    · cases h
    · rename_i hrole
      split_ifs at h with hlast
      cases h
      exact ⟨ht, hrole, by simpa using hlast⟩

/-! ## One operation each -/

structure AddMemberOk (p : AddMemberPayload) (actor : ActorContext) (s : MutableChainState) : Prop where
  fresh : s.members.get? p.targetUserId = none
  keys : registersTakenKey s p.encPubHex p.sigPubHex = false
  scope : MemberScopeOk p.toScopePayloadFields p.role actor (permissionChangeAddMember p) s

theorem addMemberReason_eq_none {p : AddMemberPayload} {actor : ActorContext} {s : MutableChainState}
    (h : addMemberReason p actor s = none) : AddMemberOk p actor s := by
  unfold addMemberReason at h
  split_ifs at h with h1 h2
  exact ⟨(OrderedMap.has_eq_false_iff _ _).mp (by simpa using h1), by simpa using h2, memberScopeReason_eq_none h⟩

structure ChangeRoleOk (p : ChangeRolePayload) (actor : ActorContext) (s : MutableChainState)
    (target : ChainMember) : Prop where
  resolved : TargetOk (.changeRole p) p.targetUserId (some p.newRole) actor s target
  scope : MemberScopeOk p.toScopePayloadFields p.newRole actor (permissionChangeChangeRole p (some target)) s
  quorum : quorumReachableAfter (.changeRole p) s (some target) = true

theorem changeRoleReason_eq_none {p : ChangeRolePayload} {actor : ActorContext} {s : MutableChainState}
    (h : changeRoleReason p actor s = none) : ∃ target, ChangeRoleOk p actor s target := by
  unfold changeRoleReason at h
  split at h
  · cases h
  · rename_i target htarget
    rw [checks_eq_none, require_eq_none] at h
    exact ⟨target, resolveTargetedOp_ok htarget, memberScopeReason_eq_none h.1, h.2⟩

structure RemoveMemberOk (p : RemoveMemberPayload) (actor : ActorContext) (s : MutableChainState)
    (target : ChainMember) : Prop where
  resolved : TargetOk (.removeMember p) p.targetUserId none actor s target
  contained : scopeContainsEnvironmentSet actor.permission.scope (scopeAsEnvironmentSet target.scope) = true
  quorum : quorumReachableAfter (.removeMember p) s (some target) = true

theorem removeMemberReason_eq_none {p : RemoveMemberPayload} {actor : ActorContext} {s : MutableChainState}
    (h : removeMemberReason p actor s = none) : ∃ target, RemoveMemberOk p actor s target := by
  unfold removeMemberReason at h
  split at h
  · cases h
  · rename_i target htarget
    split_ifs at h with h1 h2
    exact ⟨target, resolveTargetedOp_ok htarget, by simpa [permissionChangeRemoveMember] using h1, h2⟩

structure AddDeviceOk (p : AddDevicePayload) (actor : ActorContext) (s : MutableChainState) : Prop where
  keys : registersTakenKey s p.encPubHex p.sigPubHex = false
  live : ∀ id ∈ p.scopeEnvironmentIds, Live s id
  cap : capWithinCap { roleCap := p.roleCap, scope := memberScopeOf p.toScopePayloadFields }
    actor.device.toDeviceCap = true

theorem addDeviceReason_eq_none {p : AddDevicePayload} {actor : ActorContext} {s : MutableChainState}
    (h : addDeviceReason p actor s = none) : AddDeviceOk p actor s := by
  rw [addDeviceReason, refuse_else_eq_none, checks_eq_none, require_eq_none,
    scopeEnvironmentsReason_eq_none] at h
  exact ⟨by simpa using h.1, h.2.1, h.2.2⟩

structure RevokeDeviceOk (p : RevokeDevicePayload) (actor : ActorContext) (s : MutableChainState)
    (target : ChainMember) : Prop where
  member : s.members.get? p.targetUserId = some target
  known : ∀ fp ∈ p.deviceFingerprintsHex, ∃ d, target.devices.get? fp = some d
  others : target.userId ≠ actor.userId → roleRank .admin ≤ roleRank actor.permission.role ∧
    targetRoleReason none actor target = none ∧
    scopeContainsEnvironmentSet actor.permission.scope (scopeAsEnvironmentSet target.scope) = true
  remains : p.deviceFingerprintsHex.length < target.devices.size

theorem revokeDeviceReason_eq_none {p : RevokeDevicePayload} {actor : ActorContext} {s : MutableChainState}
    (h : revokeDeviceReason p actor s = none) : ∃ target, RevokeDeviceOk p actor s target := by
  unfold revokeDeviceReason at h
  split at h
  · cases h
  · rename_i target htarget
    dsimp only at h
    rw [refuse_else_eq_none, checks_eq_none, refuse_else_eq_none, refuse_eq_none] at h
    obtain ⟨hknown, hrole, hremains, hscope⟩ := h
    refine ⟨target, htarget, ?_, ?_, by omega⟩
    · simp only [List.any_eq_true, Bool.not_eq_true', not_exists, not_and, Bool.not_eq_false] at hknown
      exact fun fp hfp => (OrderedMap.has_iff _ _).mp (hknown fp hfp)
    · intro hother
      rw [if_neg (by simpa using hother), checks_eq_none, requireRole_eq_none] at hrole
      exact ⟨hrole.1, hrole.2, by simpa [hother] using hscope⟩

structure GrantServerOk (crypto : Crypto) (p : GrantServerPayload) (s : MutableChainState) : Prop where
  fingerprint : serverFingerprintHex crypto p.serverEncPubHex = p.serverKeyFingerprintHex
  notDeleted : ∀ id ∈ p.scopeEnvironmentIds, isDeletedEnvironment s id = false
  widened : ∀ existing, s.serverGrants.get? p.serverKeyFingerprintHex = some existing →
    ∀ id ∈ existing.scopeEnvironmentIds, id ∈ p.scopeEnvironmentIds
  key : s.memberEncPubs.get? p.serverEncPubHex = none

theorem grantServerReason_eq_none {crypto : Crypto} {p : GrantServerPayload} {s : MutableChainState}
    (h : grantServerReason crypto p s = none) : GrantServerOk crypto p s := by
  unfold grantServerReason at h
  split_ifs at h with h1 h2 h3 h4
  refine ⟨by simpa using h1, by simpa using h2, ?_, (OrderedMap.has_eq_false_iff _ _).mp (by simpa using h4)⟩
  intro existing hexisting
  simpa [hexisting] using h3

structure RotateEpochOk (p : RotateEpochPayload) (actor : ActorContext) (s : MutableChainState)
    (environment : EnvironmentChainState) : Prop where
  found : s.environments.get? p.environmentId = some environment
  notDeleted : environment.deletedAtSeq = none
  inScope : actor.permission.scope.Has p.environmentId
  newEpoch : p.newEpoch = environment.currentEpoch + 1

theorem rotateEpochReason_eq_none {p : RotateEpochPayload} {actor : ActorContext} {s : MutableChainState}
    (h : rotateEpochReason p actor s = none) : ∃ environment, RotateEpochOk p actor s environment := by
  unfold rotateEpochReason at h
  split at h
  · cases h
  · rename_i environment henv
    split_ifs at h with h1 h2 h3
    exact ⟨environment, henv, by simpa using h1, by simpa [MemberScope.Has] using h2, h3⟩

theorem createEnvironmentReason_eq_none {p : CreateEnvironmentPayload} {actor : ActorContext}
    {s : MutableChainState} (h : createEnvironmentReason p actor s = none) :
    s.environments.get? p.environmentId = none ∧ actor.permission.scope.Has p.environmentId := by
  unfold createEnvironmentReason at h
  split_ifs at h with h1 h2
  exact ⟨(OrderedMap.has_eq_false_iff _ _).mp (by simpa using h1), h2⟩

theorem deleteEnvironmentReason_eq_none {p : DeleteEnvironmentPayload} {actor : ActorContext}
    {s : MutableChainState} (h : deleteEnvironmentReason p actor s = none) :
    Live s p.environmentId ∧ actor.permission.scope.Has p.environmentId := by
  rw [deleteEnvironmentReason, checks_eq_none, liveEnvironmentReason_eq_none, require_eq_none] at h
  exact h

structure TupleOk (tuple : CheckpointEnvironmentEntry) (actor : ActorContext) (s : MutableChainState) :
    Prop where
  live : Live s tuple.environmentId
  inScope : actor.permission.scope.Has tuple.environmentId
  epoch : ∀ environment, s.environments.get? tuple.environmentId = some environment →
    environment.currentEpoch = tuple.epoch
  forward : ∀ prior, s.checkpoints.get? tuple.environmentId = some prior →
    prior.manifestVersion ≤ tuple.manifestVersion

theorem checkpointReason_eq_none {environments : List CheckpointEnvironmentEntry} {actor : ActorContext}
    {s : MutableChainState} (h : checkpointReason environments actor s = none) :
    ∀ tuple ∈ environments, TupleOk tuple actor s := by
  simp only [checkpointReason, checks_eq_none, refuse_eq_none, List.any_eq_true, not_exists, not_and,
    Bool.not_eq_true, Bool.not_eq_false', decide_eq_false_iff_not, not_not, ne_eq] at h
  obtain ⟨hexists, hdeleted, hscope, hepoch, hforward⟩ := h
  intro tuple htuple
  refine ⟨(live_iff _ _).mpr ⟨hexists tuple htuple, hdeleted tuple htuple⟩, hscope tuple htuple, ?_, ?_⟩
  · intro environment henv
    simpa [henv] using hepoch tuple htuple
  · intro prior hprior
    simpa [hprior] using hforward tuple htuple

end Maruhi.Chain
