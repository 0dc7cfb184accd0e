import Maruhi.Chain.Wire

/-!
# Environment and scope hygiene

Listed scopes name live environments only, epochs are consecutive, checkpoints stand on live
environments, and what is deleted stays as it was.
-/

open Run

namespace Maruhi.Chain

/-! ## Scopes that passed the payload check -/

/-- The scope an operation establishes lists no environment twice. -/
def scopeDistinct : ProposableOperation → Prop
  | .addMember p => (memberScopeOf p.toScopePayloadFields).ids.Nodup
  | .changeRole p => (memberScopeOf p.toScopePayloadFields).ids.Nodup
  | .addDevice p => (memberScopeOf p.toScopePayloadFields).ids.Nodup
  | _ => True

theorem nodup_of_scopeShaped {fields : ScopePayloadFields} (h : ScopeShaped fields) :
    (memberScopeOf fields).ids.Nodup := by
  obtain ⟨kind, ids⟩ := fields
  have hok := h.ok
  cases kind with
  | all => exact List.nodup_nil
  | listed => exact of_decide_eq_true hok

theorem operationsIn_scopeDistinct {entries : List Json} : ∀ op ∈ operationsIn entries, scopeDistinct op := by
  intro op hop
  have hshaped := operationsIn_shaped op hop
  cases op with
  | addMember p => exact nodup_of_scopeShaped hshaped.2.2
  | changeRole p => exact nodup_of_scopeShaped hshaped.2
  | addDevice p => exact nodup_of_scopeShaped hshaped.2
  | _ => trivial

/-! ## The invariant -/

/-- Epochs run from 1 without a gap, each started after the one before, all by `n`. -/
structure EnvironmentOk (n : Nat) (environment : EnvironmentChainState) : Prop where
  positive : 1 ≤ environment.currentEpoch
  startKeys : environment.epochStartSeqs.keys = List.range' 1 environment.currentEpoch
  commitmentKeys : environment.dekCommitments.keys = List.range' 1 environment.currentEpoch
  increasing : environment.epochStartSeqs.values.Pairwise (· < ·)
  first : environment.epochStartSeqs.get? 1 = some environment.createdAtSeq
  bound : ∀ start ∈ environment.epochStartSeqs.values, start ≤ n

/-- A scope whose ids are distinct and all live. -/
structure CleanScope (s : MutableChainState) (scope : MemberScope) : Prop where
  nodup : scope.ids.Nodup
  live : ∀ e ∈ scope.ids, Live s e

structure Hygiene (n : Nat) (s : MutableChainState) : Prop where
  member : ∀ u m, s.members.get? u = some m → CleanScope s m.scope ∧ (m.role = .owner → m.scope = .all)
  device : ∀ u m fp d, s.members.get? u = some m → m.devices.get? fp = some d → CleanScope s d.scope
  grant : ∀ fp g, s.serverGrants.get? fp = some g → ∀ e ∈ g.scopeEnvironmentIds, isDeletedEnvironment s e = false
  environment : ∀ e environment, s.environments.get? e = some environment → EnvironmentOk n environment
  checkpoint : ∀ e c, s.checkpoints.get? e = some c → ∃ environment, s.environments.get? e = some environment ∧
    environment.deletedAtSeq = none ∧ c.epoch ≤ environment.currentEpoch

theorem hygiene_initial : Hygiene 0 .initial :=
  ⟨fun _ _ h => (nomatch h), fun _ _ _ _ h _ => (nomatch h), fun _ _ h => (nomatch h),
    fun _ _ h => (nomatch h), fun _ _ h => (nomatch h)⟩

theorem environmentOk_mono {n n' : Nat} (hn : n ≤ n') {environment : EnvironmentChainState}
    (h : EnvironmentOk n environment) : EnvironmentOk n' environment :=
  { h with bound := fun start hs => (h.bound start hs).trans hn }

theorem environmentOk_new (p : CreateEnvironmentPayload) (seq : Nat) : EnvironmentOk seq (newEnvironment p seq) := by
  refine ⟨le_refl 1, rfl, rfl, ?_, OrderedMap.get?_set_self _ _ _, ?_⟩
  · exact List.pairwise_singleton _ _
  · intro start hs
    rw [List.mem_singleton.mp hs]

theorem environmentOk_rotated {n : Nat} {environment : EnvironmentChainState} {p : RotateEpochPayload}
    (h : EnvironmentOk n environment) (hp : p.newEpoch = environment.currentEpoch + 1) :
    EnvironmentOk (n + 1) (rotatedEnvironment p (n + 1) environment) := by
  have hfresh : p.newEpoch ∉ List.range' 1 environment.currentEpoch := by
    rw [List.mem_range'_1]; omega
  have hrange : List.range' 1 p.newEpoch = List.range' 1 environment.currentEpoch ++ [p.newEpoch] := by
    rw [hp, List.range'_concat]; simp [Nat.add_comm]
  have hstart := OrderedMap.get?_eq_none_of_not_mem_keys (h.startKeys.symm ▸ hfresh)
  have hcommit := OrderedMap.get?_eq_none_of_not_mem_keys (h.commitmentKeys.symm ▸ hfresh)
  have hvalues := OrderedMap.values_set_of_get?_none (n + 1) hstart
  refine ⟨?_, ?_, ?_, ?_, ?_, ?_⟩
  · simp only [rotatedEnvironment]; omega
  · simp only [rotatedEnvironment]
    rw [OrderedMap.keys_set_of_get?_none _ hstart, h.startKeys, hrange]
  · simp only [rotatedEnvironment]
    rw [OrderedMap.keys_set_of_get?_none _ hcommit, h.commitmentKeys, hrange]
  · simp only [rotatedEnvironment]
    rw [hvalues, List.pairwise_append]
    refine ⟨h.increasing, List.pairwise_singleton _ _, ?_⟩
    intro a ha b hb
    rw [List.mem_singleton.mp hb]
    exact Nat.lt_succ_of_le (h.bound a ha)
  · simp only [rotatedEnvironment]
    rw [OrderedMap.get?_set_ne _ _ (by have := h.positive; omega)]
    exact h.first
  · intro start hs
    simp only [rotatedEnvironment] at hs
    rw [hvalues, List.mem_append, List.mem_singleton] at hs
    rcases hs with hs | rfl
    · exact (h.bound start hs).trans (Nat.le_succ n)
    · exact le_refl _

/-! ## One applied operation -/

section Apply
variable {crypto : Crypto} {s : MutableChainState} {op : ProposableOperation} {u : UserId}
  {fp : KeyFingerprintHex} {m : ChainMember} {d : ChainDevice}

theorem live_apply (op : ProposableOperation) (seq : Nat) (u : UserId) {e : EnvironmentId} (h : Live s e)
    (hop : ∀ p, op = .deleteEnvironment p → e ≠ p.environmentId) : Live (applyOperation crypto op s seq u) e := by
  obtain ⟨environment, henv, hlive⟩ := h
  unfold Live
  rw [get?_environments_applyOperation, henv]
  unfold environmentAfter
  split
  · split_ifs
    · exact ⟨_, rfl, rfl⟩
    · exact ⟨_, rfl, hlive⟩
  · rename_i p
    rw [if_neg (hop p rfl)]
    exact ⟨_, rfl, hlive⟩
  · split_ifs
    · exact ⟨_, rfl, hlive⟩
    · exact ⟨_, rfl, hlive⟩
  · exact ⟨_, rfl, hlive⟩

theorem isDeletedEnvironment_eq_false_iff {e : EnvironmentId} : isDeletedEnvironment s e = false ↔
    ∀ environment, s.environments.get? e = some environment → environment.deletedAtSeq = none := by
  unfold isDeletedEnvironment
  cases s.environments.get? e with
  | none => simp
  | some environment => simp

theorem notDeleted_apply (op : ProposableOperation) (seq : Nat) (u : UserId) {e : EnvironmentId}
    (h : isDeletedEnvironment s e = false) (hop : ∀ p, op = .deleteEnvironment p → e ≠ p.environmentId) :
    isDeletedEnvironment (applyOperation crypto op s seq u) e = false := by
  rw [isDeletedEnvironment_eq_false_iff] at h ⊢
  intro environment henv
  rw [get?_environments_applyOperation] at henv
  unfold environmentAfter at henv
  split at henv
  · split_ifs at henv
    · cases henv; rfl
    · exact h _ henv
  · rename_i p
    rw [if_neg (hop p rfl)] at henv
    exact h _ henv
  · split_ifs at henv
    · obtain ⟨old, hold, rfl⟩ := Option.map_eq_some_iff.mp henv
      exact h old hold
    · exact h _ henv
  · exact h _ henv

theorem cleanScope_apply (seq : Nat) (u : UserId) {scope : MemberScope} (h : CleanScope s scope)
    (hop : ∀ p, op ≠ .deleteEnvironment p) : CleanScope (applyOperation crypto op s seq u) scope :=
  ⟨h.nodup, fun e he => live_apply op seq u (h.live e he) fun p hp => absurd hp (hop p)⟩

theorem cleanScope_pruned (p : DeleteEnvironmentPayload) (seq : Nat) (u : UserId) {scope : MemberScope}
    (h : CleanScope s scope) :
    CleanScope (applyOperation crypto (.deleteEnvironment p) s seq u) (scopeWithout scope p.environmentId) := by
  constructor
  · rw [scopeWithout_ids]; exact h.nodup.filter _
  · intro e he
    rw [scopeWithout_ids, List.mem_filter] at he
    exact live_apply _ seq u (h.live e he.1) fun q hq => by cases hq; simpa using he.2

theorem cleanScope_payload {fields : ScopePayloadFields} (hnodup : (memberScopeOf fields).ids.Nodup)
    (hlive : ∀ e ∈ fields.scopeEnvironmentIds, Live s e) : CleanScope s (memberScopeOf fields) := by
  refine ⟨hnodup, fun e he => ?_⟩
  unfold memberScopeOf at he
  split at he
  · simp at he
  · exact hlive e he

theorem memberScopeOf_all {fields : ScopePayloadFields} (h : fields.scopeKind = .all) :
    memberScopeOf fields = .all := by
  rw [memberScopeOf, h]

theorem hygiene_members {n : Nat} (hk : WellKeyed crypto s) (h : Hygiene n s) (hq : scopeDistinct op)
    (auth : Authorized crypto s op u fp m d) (seq : Nat) (v : UserId) (x : ChainMember)
    (hx : (applyOperation crypto op s seq m.userId).members.get? v = some x) :
    (CleanScope (applyOperation crypto op s seq m.userId) x.scope ∧ (x.role = .owner → x.scope = .all)) ∧
      ∀ f e, x.devices.get? f = some e → CleanScope (applyOperation crypto op s seq m.userId) e.scope := by
  have hold : ∀ y, s.members.get? v = some y →
      (CleanScope s y.scope ∧ (y.role = .owner → y.scope = .all)) ∧
        ∀ f e, y.devices.get? f = some e → CleanScope s e.scope :=
    fun y hy => ⟨h.member v y hy, fun f e he => h.device v y f e hy he⟩
  have hkeep : (∀ p, op ≠ .deleteEnvironment p) → ∀ y, s.members.get? v = some y →
      (CleanScope (applyOperation crypto op s seq m.userId) y.scope ∧ (y.role = .owner → y.scope = .all)) ∧
        ∀ f e, y.devices.get? f = some e → CleanScope (applyOperation crypto op s seq m.userId) e.scope :=
    fun hop y hy => ⟨⟨cleanScope_apply seq _ (hold y hy).1.1 hop, (hold y hy).1.2⟩,
      fun f e he => cleanScope_apply seq _ ((hold y hy).2 f e he) hop⟩
  rw [get?_members_applyOperation hk op auth.exists_environment] at hx
  cases op with
  | addMember p =>
    have hok := (addMemberReason_eq_none auth.rules).scope
    simp only [memberAfter] at hx
    split_ifs at hx with hv
    · cases hx
      refine ⟨⟨cleanScope_apply seq _ (cleanScope_payload hq hok.live) (by simp), fun hrole => ?_⟩, ?_⟩
      · exact memberScopeOf_all (hok.ownerAll hrole)
      · intro f e he
        rw [(soleDevice_get? he).1]
        exact ⟨List.nodup_nil, fun _ hmem => (List.not_mem_nil hmem).elim⟩
    · exact hkeep (by simp) x hx
  | changeRole p =>
    obtain ⟨target, htarget⟩ := changeRoleReason_eq_none auth.rules
    have hok := htarget.scope
    simp only [memberAfter] at hx
    split_ifs at hx with hv
    · obtain ⟨y, hy, rfl⟩ := Option.map_eq_some_iff.mp hx
      refine ⟨⟨cleanScope_apply seq _ (cleanScope_payload hq hok.live) (by simp), fun hrole => ?_⟩,
        (hkeep (by simp) y hy).2⟩
      exact memberScopeOf_all (hok.ownerAll hrole)
    · exact hkeep (by simp) x hx
  | removeMember p =>
    simp only [memberAfter] at hx
    split_ifs at hx with hv
    exact hkeep (by simp) x hx
  | deleteEnvironment p =>
    obtain ⟨y, hy, rfl⟩ := Option.map_eq_some_iff.mp hx
    refine ⟨⟨cleanScope_pruned p seq _ (hold y hy).1.1, fun hrole => ?_⟩, ?_⟩
    · exact (scopeWithout_eq_all_iff _ _).mpr ((hold y hy).1.2 hrole)
    · intro f e he
      obtain ⟨e', he', rfl⟩ := Option.map_eq_some_iff.mp ((OrderedMap.get?_mapValues _ _ _).symm.trans he)
      exact cleanScope_pruned p seq _ ((hold y hy).2 f e' he')
  | addDevice p =>
    have hok := addDeviceReason_eq_none auth.rules
    simp only [memberAfter] at hx
    split_ifs at hx with hv
    · obtain ⟨y, hy, rfl⟩ := Option.map_eq_some_iff.mp hx
      refine ⟨(hkeep (by simp) y hy).1, fun f e he => ?_⟩
      rw [memberWithDevice, OrderedMap.get?_set] at he
      split_ifs at he with hf
      · cases he; exact cleanScope_apply seq _ (cleanScope_payload hq hok.live) (by simp)
      · exact (hkeep (by simp) y hy).2 f e he
    · exact hkeep (by simp) x hx
  | revokeDevice p =>
    simp only [memberAfter] at hx
    split_ifs at hx with hv
    · obtain ⟨y, hy, rfl⟩ := Option.map_eq_some_iff.mp hx
      refine ⟨(hkeep (by simp) y hy).1, fun f e he => ?_⟩
      rw [memberWithoutDevices, OrderedMap.get?_without] at he
      split_ifs at he with hf
      exact (hkeep (by simp) y hy).2 f e he
    · exact hkeep (by simp) x hx
  | _ => exact hkeep (by simp) x hx

theorem hygiene_grants {n : Nat} (hk : WellKeyed crypto s) (h : Hygiene n s)
    (auth : Authorized crypto s op u fp m d) (seq : Nat) (f : KeyFingerprintHex) (g : ServerGrant)
    (hg : (applyOperation crypto op s seq m.userId).serverGrants.get? f = some g) :
    ∀ e ∈ g.scopeEnvironmentIds, isDeletedEnvironment (applyOperation crypto op s seq m.userId) e = false := by
  have hkeep : (∀ p, op ≠ .deleteEnvironment p) → ∀ g', s.serverGrants.get? f = some g' →
      ∀ e ∈ g'.scopeEnvironmentIds, isDeletedEnvironment (applyOperation crypto op s seq m.userId) e = false :=
    fun hop g' hg' e he => notDeleted_apply op seq _ (h.grant f g' hg' e he) fun p hp => absurd hp (hop p)
  rw [get?_serverGrants_applyOperation hk op auth.exists_environment] at hg
  cases op with
  | grantServer p =>
    simp only [grantAfter] at hg
    split_ifs at hg with hf
    · cases hg
      exact fun e he => notDeleted_apply _ seq _ ((grantServerReason_eq_none auth.rules).notDeleted e he) (by simp)
    · exact hkeep (by simp) g hg
  | revokeServer p =>
    simp only [grantAfter] at hg
    split_ifs at hg with hf
    exact hkeep (by simp) g hg
  | deleteEnvironment p =>
    obtain ⟨g', hg', rfl⟩ := Option.map_eq_some_iff.mp hg
    intro e he
    simp only [pruneGrant, List.mem_filter, decide_eq_true_eq] at he
    exact notDeleted_apply _ seq _ (h.grant f g' hg' e he.1) fun q hq => by cases hq; exact he.2
  | _ => exact hkeep (by simp) g hg

theorem hygiene_environments {n : Nat} (h : Hygiene n s) (auth : Authorized crypto s op u fp m d)
    (e : EnvironmentId) (environment : EnvironmentChainState)
    (he : (applyOperation crypto op s (n + 1) m.userId).environments.get? e = some environment) :
    EnvironmentOk (n + 1) environment := by
  have hkeep : ∀ old, s.environments.get? e = some old → EnvironmentOk (n + 1) old :=
    fun old hold => environmentOk_mono (Nat.le_succ n) (h.environment e old hold)
  rw [get?_environments_applyOperation] at he
  cases op with
  | createEnvironment p =>
    simp only [environmentAfter] at he
    split_ifs at he
    · cases he; exact environmentOk_new p (n + 1)
    · exact hkeep _ he
  | deleteEnvironment p =>
    simp only [environmentAfter] at he
    split_ifs at he
    · obtain ⟨old, hold, rfl⟩ := Option.map_eq_some_iff.mp he
      have hok := hkeep old hold
      exact ⟨hok.positive, hok.startKeys, hok.commitmentKeys, hok.increasing, hok.first, hok.bound⟩
    · exact hkeep _ he
  | rotateEpoch p =>
    obtain ⟨current, hcurrent⟩ := rotateEpochReason_eq_none auth.rules
    simp only [environmentAfter] at he
    split_ifs at he with heq
    · obtain ⟨old, hold, rfl⟩ := Option.map_eq_some_iff.mp he
      rw [heq, hcurrent.found] at hold
      cases hold
      exact environmentOk_rotated (h.environment _ _ hcurrent.found) hcurrent.newEpoch
    · exact hkeep _ he
  | _ => exact hkeep _ he

/-- A checkpoint of the applied state is an earlier one, or one of the tuples just passed. -/
theorem hygiene_checkpoints {n : Nat} (h : Hygiene n s) (auth : Authorized crypto s op u fp m d) (seq : Nat)
    (e : EnvironmentId) (c : EnvironmentCheckpointState)
    (hc : (applyOperation crypto op s seq m.userId).checkpoints.get? e = some c) :
    ∃ environment, (applyOperation crypto op s seq m.userId).environments.get? e = some environment ∧
      environment.deletedAtSeq = none ∧ c.epoch ≤ environment.currentEpoch := by
  rw [get?_checkpoints_applyOperation crypto op s auth.exists_environment] at hc
  rw [get?_environments_applyOperation]
  cases op with
  | createEnvironment p =>
    obtain ⟨old, hold, hlive, hle⟩ := h.checkpoint e c hc
    have hne : e ≠ p.environmentId := by
      rintro rfl
      rw [(createEnvironmentReason_eq_none auth.rules).1] at hold
      cases hold
    exact ⟨old, by simp only [environmentAfter, if_neg hne]; exact hold, hlive, hle⟩
  | deleteEnvironment p =>
    simp only [checkpointAfter] at hc
    split_ifs at hc with hne
    obtain ⟨old, hold, hlive, hle⟩ := h.checkpoint e c hc
    exact ⟨old, by simp only [environmentAfter, if_neg hne]; exact hold, hlive, hle⟩
  | rotateEpoch p =>
    obtain ⟨current, hcurrent⟩ := rotateEpochReason_eq_none auth.rules
    obtain ⟨old, hold, hlive, hle⟩ := h.checkpoint e c hc
    by_cases heq : e = p.environmentId
    · refine ⟨rotatedEnvironment p seq old, by simp only [environmentAfter, if_pos heq, hold, Option.map_some], hlive, ?_⟩
      rw [heq, hcurrent.found] at hold
      cases hold
      simp only [rotatedEnvironment, hcurrent.newEpoch]
      omega
    · exact ⟨old, by simp only [environmentAfter, if_neg heq]; exact hold, hlive, hle⟩
  | checkpoint p =>
    have hok := checkpointReason_eq_none auth.rules
    simp only [checkpointAfter, Option.or_eq_some_iff] at hc
    rcases hc with hc | ⟨-, hc⟩
    · obtain ⟨tuple, htuple, rfl⟩ := Option.map_eq_some_iff.mp hc
      have hmem := List.mem_reverse.mp (List.mem_of_find?_eq_some htuple)
      have heq : tuple.environmentId = e := by simpa using List.find?_some htuple
      obtain ⟨environment, henv, hlive⟩ := (hok tuple hmem).live
      refine ⟨environment, heq ▸ henv, hlive, ?_⟩
      exact ((hok tuple hmem).epoch environment henv).ge
    · exact h.checkpoint e c hc
  | _ => exact h.checkpoint e c hc

theorem hygiene_apply {n : Nat} (hk : WellKeyed crypto s) (h : Hygiene n s) (hq : scopeDistinct op)
    (auth : Authorized crypto s op u fp m d) : Hygiene (n + 1) (applyOperation crypto op s (n + 1) m.userId) where
  member v x hx := (hygiene_members hk h hq auth (n + 1) v x hx).1
  device v x f e hx he := (hygiene_members hk h hq auth (n + 1) v x hx).2 f e he
  grant f g hg := hygiene_grants hk h auth (n + 1) f g hg
  environment e environment he := hygiene_environments h auth e environment he
  checkpoint e c hc := hygiene_checkpoints h auth (n + 1) e c hc

end Apply

theorem hygiene_genesis (p : GenesisPayload) (actor : ChainActor) :
    Hygiene 1 (applyGenesis p actor 1 .initial) := by
  have hall : ∀ s, CleanScope s .all := fun _ => ⟨List.nodup_nil, fun _ h => (List.not_mem_nil h).elim⟩
  refine ⟨?_, ?_, fun _ _ h => (nomatch h), fun _ _ h => (nomatch h), fun _ _ h => (nomatch h)⟩
  · intro v x hx
    have hx := (OrderedMap.get?_set _ _ _ _).symm.trans hx
    split_ifs at hx
    · cases hx; exact ⟨hall _, fun _ => rfl⟩
    · cases hx
  · intro v x f e hx he
    have hx := (OrderedMap.get?_set _ _ _ _).symm.trans hx
    split_ifs at hx
    · cases hx
      rw [(soleDevice_get? he).1]
      exact hall _
    · cases hx

theorem cleanScope_withPending {s : MutableChainState} {scope : MemberScope} (h : CleanScope s scope)
    (pending : OrderedMap JsString PendingProposal) : CleanScope (withPending s pending) scope :=
  ⟨h.nodup, h.live⟩

theorem hygiene_withPending {n : Nat} {s : MutableChainState} (h : Hygiene n s)
    (pending : OrderedMap JsString PendingProposal) : Hygiene n (withPending s pending) where
  member u m hm := ⟨cleanScope_withPending (h.member u m hm).1 pending, (h.member u m hm).2⟩
  device u m fp d hm hd := cleanScope_withPending (h.device u m fp d hm hd) pending
  grant := h.grant
  environment := h.environment
  checkpoint := h.checkpoint

theorem runs_hygiene {crypto : Crypto} {history : Option ChainHistoryBuilder} {entries : List Json}
    {loop : LoopState} (hrun : Runs crypto history entries loop) : Hygiene loop.seq loop.state :=
  state_induction hrun (I := Hygiene) operationsIn_scopeDistinct hygiene_initial
    (fun n _ _ _ _ _ _ h => { h with environment := fun e v he => environmentOk_mono (Nat.le_succ n) (h.environment e v he) })
    (fun _ _ pending h => hygiene_withPending h pending)
    (fun p actor _ _ => hygiene_genesis p actor)
    (fun _ _ _ _ _ _ _ hq hk h auth => hygiene_apply hk h hq auth)

/-! ## From one state to a later one -/

/-- `s'` comes after `s`: environments stay, a deleted one as it was, and checkpoints only move on. -/
structure Advanced (s s' : MutableChainState) : Prop where
  environment : ∀ e v, s.environments.get? e = some v → ∃ v', s'.environments.get? e = some v' ∧
    v'.createdAtSeq = v.createdAtSeq ∧ v.currentEpoch ≤ v'.currentEpoch ∧ (v.deletedAtSeq ≠ none → v' = v)
  checkpoint : ∀ e c, s.checkpoints.get? e = some c →
    (∃ c', s'.checkpoints.get? e = some c' ∧ c.manifestVersion ≤ c'.manifestVersion ∧ c.epoch ≤ c'.epoch) ∨
      isDeletedEnvironment s' e = true

theorem advanced_refl (s : MutableChainState) : Advanced s s :=
  ⟨fun _ v hv => ⟨v, hv, rfl, le_refl _, fun _ => rfl⟩, fun _ c hc => Or.inl ⟨c, hc, le_refl _, le_refl _⟩⟩

theorem isDeletedEnvironment_iff {s : MutableChainState} {e : EnvironmentId} :
    isDeletedEnvironment s e = true ↔
      ∃ environment, s.environments.get? e = some environment ∧ environment.deletedAtSeq ≠ none := by
  unfold isDeletedEnvironment
  cases s.environments.get? e with
  | none => simp
  | some environment => simp [Option.isSome_iff_ne_none]

theorem advanced_deleted {s s' : MutableChainState} (h : Advanced s s') {e : EnvironmentId}
    (hdel : isDeletedEnvironment s e = true) : isDeletedEnvironment s' e = true := by
  obtain ⟨v, hv, hne⟩ := isDeletedEnvironment_iff.mp hdel
  obtain ⟨v', hv', -, -, hsame⟩ := h.environment e v hv
  exact isDeletedEnvironment_iff.mpr ⟨v', hv', hsame hne ▸ hne⟩

theorem advanced_trans {s s' s'' : MutableChainState} (h : Advanced s s') (h' : Advanced s' s'') :
    Advanced s s'' := by
  constructor
  · intro e v hv
    obtain ⟨v', hv', hcreated, hepoch, hsame⟩ := h.environment e v hv
    obtain ⟨v'', hv'', hcreated', hepoch', hsame'⟩ := h'.environment e v' hv'
    refine ⟨v'', hv'', hcreated'.trans hcreated, hepoch.trans hepoch', fun hne => ?_⟩
    have heq := hsame hne
    rw [hsame' (heq ▸ hne), heq]
  · intro e c hc
    rcases h.checkpoint e c hc with ⟨c', hc', hmv, hepoch⟩ | hdel
    · rcases h'.checkpoint e c' hc' with ⟨c'', hc'', hmv', hepoch'⟩ | hdel
      · exact Or.inl ⟨c'', hc'', hmv.trans hmv', hepoch.trans hepoch'⟩
      · exact Or.inr hdel
    · exact Or.inr (advanced_deleted h' hdel)

theorem advanced_environment {crypto : Crypto} {s : MutableChainState} {op : ProposableOperation} {u : UserId}
    {fp : KeyFingerprintHex} {m : ChainMember} {d : ChainDevice} (auth : Authorized crypto s op u fp m d)
    (seq : Nat) (e : EnvironmentId) (v : EnvironmentChainState) (hv : s.environments.get? e = some v) :
    ∃ v', (applyOperation crypto op s seq m.userId).environments.get? e = some v' ∧
      v'.createdAtSeq = v.createdAtSeq ∧ v.currentEpoch ≤ v'.currentEpoch ∧ (v.deletedAtSeq ≠ none → v' = v) := by
  rw [get?_environments_applyOperation, hv]
  have hsame : ∃ v', some v = some v' ∧ v'.createdAtSeq = v.createdAtSeq ∧ v.currentEpoch ≤ v'.currentEpoch ∧
      (v.deletedAtSeq ≠ none → v' = v) := ⟨v, rfl, rfl, le_refl _, fun _ => rfl⟩
  cases op with
  | createEnvironment p =>
    simp only [environmentAfter]
    split_ifs with heq
    · rw [heq, (createEnvironmentReason_eq_none auth.rules).1] at hv
      cases hv
    · exact hsame
  | deleteEnvironment p =>
    simp only [environmentAfter]
    split_ifs with heq
    · obtain ⟨⟨live, hlive, hnone⟩, -⟩ := deleteEnvironmentReason_eq_none auth.rules
      rw [heq, hlive] at hv
      cases hv
      exact ⟨_, rfl, rfl, le_refl _, fun hne => absurd hnone hne⟩
    · exact hsame
  | rotateEpoch p =>
    simp only [environmentAfter]
    split_ifs with heq
    · obtain ⟨current, hcurrent⟩ := rotateEpochReason_eq_none auth.rules
      rw [heq, hcurrent.found] at hv
      cases hv
      refine ⟨_, rfl, rfl, ?_, fun hne => absurd hcurrent.notDeleted hne⟩
      simp only [rotatedEnvironment, hcurrent.newEpoch]
      omega
    · exact hsame
  | _ => exact hsame

theorem advanced_apply {crypto : Crypto} {n : Nat} {s : MutableChainState} (h : Hygiene n s)
    {op : ProposableOperation} {u : UserId} {fp : KeyFingerprintHex} {m : ChainMember} {d : ChainDevice}
    (auth : Authorized crypto s op u fp m d) (seq : Nat) :
    Advanced s (applyOperation crypto op s seq m.userId) := by
  refine ⟨advanced_environment auth seq, ?_⟩
  intro e c hc
  rw [get?_checkpoints_applyOperation crypto op s auth.exists_environment, hc]
  have hsame : ∃ c', some c = some c' ∧ c.manifestVersion ≤ c'.manifestVersion ∧ c.epoch ≤ c'.epoch :=
    ⟨c, rfl, le_refl _, le_refl _⟩
  cases op with
  | deleteEnvironment p =>
    simp only [checkpointAfter]
    split_ifs with heq
    · refine Or.inr (isDeletedEnvironment_iff.mpr ?_)
      obtain ⟨⟨live, hlive, -⟩, -⟩ := deleteEnvironmentReason_eq_none auth.rules
      refine ⟨deletedEnvironment seq live, ?_, Option.some_ne_none seq⟩
      rw [get?_environments_applyOperation, heq, hlive]
      simp [environmentAfter]
    · exact Or.inl hsame
  | checkpoint p =>
    simp only [checkpointAfter]
    cases hfind : p.environments.reverse.find? fun tuple => tuple.environmentId = e with
    | none => exact Or.inl hsame
    | some tuple =>
      have hok := checkpointReason_eq_none auth.rules tuple (List.mem_reverse.mp (List.mem_of_find?_eq_some hfind))
      have heq : tuple.environmentId = e := by simpa using List.find?_some hfind
      obtain ⟨environment, henv, -, hle⟩ := h.checkpoint e c hc
      refine Or.inl ⟨checkpointStateOf tuple seq, rfl, hok.forward c (heq ▸ hc), ?_⟩
      exact hle.trans (hok.epoch environment (heq ▸ henv)).le
  | _ => exact Or.inl hsame

theorem advanced_of_reaches {crypto : Crypto} {history : Option ChainHistoryBuilder} {pre suf : List Json}
    {loop loop' : LoopState} (hrun : Runs crypto history pre loop)
    (hreach : Reaches (verifyEntry crypto) loop suf loop') : Advanced loop.state loop'.state := by
  refine suffix_induction hrun hreach (P := fun _ l => Advanced loop.state l.state) (advanced_refl _) ?_
  intro mid j l₁ l₂ entry hash applied _ hmid h hacc
  refine advanced_trans h ?_
  have hout := step_outcome hmid hacc List.prefix_rfl
  generalize l₂.state = s' at hout
  cases hout with
  | genesis p hop hloop hseq hmem hfp =>
    rw [hloop]
    exact ⟨fun _ _ hv => (nomatch hv), fun _ _ hc => (nomatch hc)⟩
  | waits pending m d hactor => exact ⟨(advanced_refl l₁.state).environment, (advanced_refl l₁.state).checkpoint⟩
  | applies op u fp m d pending hmem auth happlied =>
    have hadv := advanced_apply (runs_hygiene hmid) auth (l₁.seq + 1)
    exact ⟨hadv.environment, hadv.checkpoint⟩

/-- Nothing lists the environment: no member's scope, no device's cap, no grant. -/
structure Unlisted (s : MutableChainState) (e : EnvironmentId) : Prop where
  member : ∀ u m, s.members.get? u = some m → e ∉ m.scope.ids
  device : ∀ u m fp d, s.members.get? u = some m → m.devices.get? fp = some d → e ∉ d.scope.ids
  grant : ∀ fp g, s.serverGrants.get? fp = some g → e ∉ g.scopeEnvironmentIds

theorem unlisted_of_deleted {n : Nat} {s : MutableChainState} (h : Hygiene n s) {e : EnvironmentId}
    (hdel : isDeletedEnvironment s e = true) : Unlisted s e ∧ s.checkpoints.get? e = none := by
  have hnotLive : ¬ Live s e := fun hlive => by
    rw [((live_iff s e).mp hlive).2] at hdel
    cases hdel
  refine ⟨⟨fun u m hm he => hnotLive ((h.member u m hm).1.live e he),
    fun u m fp d hm hd he => hnotLive ((h.device u m fp d hm hd).live e he), fun fp g hg he => ?_⟩, ?_⟩
  · rw [h.grant fp g hg e he] at hdel
    cases hdel
  · cases hc : s.checkpoints.get? e with
    | none => rfl
    | some c =>
      obtain ⟨environment, henv, hnone, -⟩ := h.checkpoint e c hc
      exact absurd ⟨environment, henv, hnone⟩ hnotLive

/-- At every prefix of an accepted list the state is hygienic; over two prefixes checkpoints never
go back, environments stay, and a deleted environment stays as it was and unlisted. -/
theorem chain_hygiene (crypto : Crypto) (entries : List Json) (st : ChainState)
    (h : verifyChain crypto entries = .ok st) :
    (∀ n ≤ entries.length, ∃ s, stateAfter crypto (entries.take n) = some s ∧ Hygiene n s) ∧
      ∀ a b, a ≤ b → ∀ s s', stateAfter crypto (entries.take a) = some s →
        stateAfter crypto (entries.take b) = some s' →
        (∀ e c c', s.checkpoints.get? e = some c → s'.checkpoints.get? e = some c' →
          c.manifestVersion ≤ c'.manifestVersion ∧ c.epoch ≤ c'.epoch) ∧
        (∀ e, s.environments.has e = true → s'.environments.has e = true) ∧
        ∀ e v, s.environments.get? e = some v → v.deletedAtSeq ≠ none →
          s'.environments.get? e = some v ∧ s.checkpoints.get? e = none ∧ s'.checkpoints.get? e = none ∧
            Unlisted s' e := by
  constructor
  · intro n hn
    obtain ⟨s, hs⟩ := stateAfter_take h n
    obtain ⟨loop, hrun, rfl⟩ := stateAfter_eq_some.mp hs
    have hseq : loop.seq = n := by rw [runs_seq hrun, List.length_take, Nat.min_eq_left hn]
    exact ⟨loop.state, hs, hseq ▸ runs_hygiene hrun⟩
  · intro a b hab s s' hs hs'
    obtain ⟨loop, loop', hrun, rfl, hreach, rfl⟩ := runs_of_stateAfter_take hab hs hs'
    have hadv := advanced_of_reaches hrun hreach
    have hhyg := runs_hygiene hrun
    have hhyg' := runs_hygiene ((reaches_append _ _ _ _).mpr ⟨loop, hrun, hreach⟩)
    refine ⟨?_, ?_, ?_⟩
    · intro e c c' hc hc'
      rcases hadv.checkpoint e c hc with ⟨x, hx, hle⟩ | hdel
      · rw [hx] at hc'
        cases hc'
        exact hle
      · rw [(unlisted_of_deleted hhyg' hdel).2] at hc'
        cases hc'
    · intro e he
      obtain ⟨v, hv⟩ := (OrderedMap.has_iff _ _).mp he
      obtain ⟨v', hv', -⟩ := hadv.environment e v hv
      exact (OrderedMap.has_iff _ _).mpr ⟨v', hv'⟩
    · intro e v hv hne
      have hdel := isDeletedEnvironment_iff.mpr ⟨v, hv, hne⟩
      obtain ⟨v', hv', -, -, hsame⟩ := hadv.environment e v hv
      obtain ⟨hunlisted, hcheckpoint⟩ := unlisted_of_deleted hhyg' (advanced_deleted hadv hdel)
      exact ⟨hsame hne ▸ hv', (unlisted_of_deleted hhyg hdel).2, hcheckpoint, hunlisted⟩

theorem chain_hygiene_example : ∃ s, stateAfter exampleCrypto (exampleChain.take 8) = some s ∧ Hygiene 8 s := by
  obtain ⟨st, h⟩ := exampleChain_verified
  exact (chain_hygiene _ _ st h).1 8 (by decide)

end Maruhi.Chain
