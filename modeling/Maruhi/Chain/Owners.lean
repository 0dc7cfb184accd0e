import Maruhi.Chain.Keys

/-!
# Owner authority

The rules protect the number of people whose role is owner. Votes and owner operations are
judged by a device's effective role, so these people can act as owners only as long as each
keeps a device whose cap is owner.
-/

open Run Text

namespace Maruhi.Chain

/-- The people whose role is owner. -/
def owners (s : MutableChainState) : List UserId := s.members.keysWhere isOwner

/-- An owner who holds a device with effective role owner. -/
def canActAsOwner (member : ChainMember) : Bool :=
  member.devices.values.any fun device => (effectivePermissionOf member device.toDeviceCap).role = .owner

def effectiveOwners (s : MutableChainState) : List UserId := s.members.keysWhere canActAsOwner

theorem mem_owners {s : MutableChainState} {u : UserId} :
    u ∈ owners s ↔ ∃ m, s.members.get? u = some m ∧ m.role = .owner := by
  simp [owners, OrderedMap.mem_keysWhere, isOwner]

theorem length_owners (s : MutableChainState) : (owners s).length = ownersCount s :=
  OrderedMap.length_keysWhere _ _

theorem canActAsOwner_iff {m : ChainMember} :
    canActAsOwner m = true ↔ m.role = .owner ∧ ∃ fp d, m.devices.get? fp = some d ∧ d.roleCap = .owner := by
  simp only [canActAsOwner, List.any_eq_true, decide_eq_true_eq, OrderedMap.mem_values, effectiveRole_owner_iff]
  constructor
  · rintro ⟨d, ⟨fp, hd⟩, hrole, hcap⟩; exact ⟨hrole, fp, d, hd, hcap⟩
  · rintro ⟨hrole, fp, d, hd, hcap⟩; exact ⟨d, ⟨fp, hd⟩, hrole, hcap⟩

/-! ## People -/

structure OwnersKept (s : MutableChainState) : Prop where
  some_owner : 1 ≤ (owners s).length
  quorum : ∀ policy, s.approvalPolicy = some policy → policy.requiredApprovals ≤ (owners s).length
  device : ∀ u m, s.members.get? u = some m → ∃ fp d, m.devices.get? fp = some d

section Apply
variable {crypto : Crypto} {s : MutableChainState} {op : ProposableOperation} {u : UserId}
  {fp : KeyFingerprintHex} {m : ChainMember} {d : ChainDevice}

theorem owner_apply (hk : WellKeyed crypto s) (auth : Authorized crypto s op u fp m d) (seq : Nat) {v : UserId}
    (hv : v ∈ owners s) (hremove : ∀ p, op = .removeMember p → v ≠ p.targetUserId)
    (hchange : ∀ p, op = .changeRole p → v = p.targetUserId → p.newRole = .owner) :
    v ∈ owners (applyOperation crypto op s seq m.userId) := by
  obtain ⟨x, hx, hrole⟩ := mem_owners.mp hv
  rw [mem_owners, get?_members_applyOperation hk op auth.exists_environment, hx]
  have hstay : ∃ m', some x = some m' ∧ m'.role = .owner := ⟨x, rfl, hrole⟩
  cases op with
  | addMember p =>
    simp only [memberAfter]
    split_ifs with heq
    · rw [heq, (addMemberReason_eq_none auth.rules).fresh] at hx
      cases hx
    · exact hstay
  | changeRole p =>
    simp only [memberAfter]
    split_ifs with heq
    · exact ⟨_, rfl, hchange p rfl heq⟩
    · exact hstay
  | removeMember p =>
    simp only [memberAfter]
    rw [if_neg (hremove p rfl)]
    exact hstay
  | deleteEnvironment p => exact ⟨_, rfl, hrole⟩
  | addDevice p =>
    simp only [memberAfter]
    split_ifs
    · exact ⟨_, rfl, hrole⟩
    · exact hstay
  | revokeDevice p =>
    simp only [memberAfter]
    split_ifs
    · exact ⟨_, rfl, hrole⟩
    · exact hstay
  | _ => exact hstay

theorem owner_of_apply (hk : WellKeyed crypto s) (auth : Authorized crypto s op u fp m d) (seq : Nat) {v : UserId}
    (hop : establishesOwner op = false) (hv : v ∈ owners (applyOperation crypto op s seq m.userId)) :
    v ∈ owners s := by
  obtain ⟨x, hx, hrole⟩ := mem_owners.mp hv
  rw [get?_members_applyOperation hk op auth.exists_environment] at hx
  have hmap : ∀ f : ChainMember → ChainMember, (∀ y, (f y).role = y.role) →
      (s.members.get? v).map f = some x → v ∈ owners s := by
    intro f hf hx
    obtain ⟨y, hy, rfl⟩ := Option.map_eq_some_iff.mp hx
    exact mem_owners.mpr ⟨y, hy, (hf y) ▸ hrole⟩
  cases op with
  | addMember p =>
    simp only [memberAfter] at hx
    split_ifs at hx
    · cases hx
      simp only [establishesOwner, decide_eq_false_iff_not] at hop
      exact absurd hrole hop
    · exact mem_owners.mpr ⟨x, hx, hrole⟩
  | changeRole p =>
    simp only [memberAfter] at hx
    split_ifs at hx
    · obtain ⟨y, hy, rfl⟩ := Option.map_eq_some_iff.mp hx
      simp only [establishesOwner, decide_eq_false_iff_not] at hop
      exact absurd hrole hop
    · exact mem_owners.mpr ⟨x, hx, hrole⟩
  | removeMember p =>
    simp only [memberAfter] at hx
    split_ifs at hx
    exact mem_owners.mpr ⟨x, hx, hrole⟩
  | deleteEnvironment p => exact hmap (pruneMember p.environmentId) (fun _ => rfl) hx
  | addDevice p =>
    simp only [memberAfter] at hx
    split_ifs at hx
    · exact hmap (memberWithDevice _) (fun _ => rfl) hx
    · exact mem_owners.mpr ⟨x, hx, hrole⟩
  | revokeDevice p =>
    simp only [memberAfter] at hx
    split_ifs at hx
    · exact hmap (memberWithoutDevices _) (fun _ => rfl) hx
    · exact mem_owners.mpr ⟨x, hx, hrole⟩
  | _ => exact mem_owners.mpr ⟨x, hx, hrole⟩

theorem owners_length_le (hk : WellKeyed crypto s) (auth : Authorized crypto s op u fp m d) (seq : Nat)
    (hremove : ∀ p, op ≠ .removeMember p) (hchange : ∀ p, op ≠ .changeRole p) :
    (owners s).length ≤ (owners (applyOperation crypto op s seq m.userId)).length :=
  OrderedMap.length_keysWhere_le fun _ hv => owner_apply hk auth seq hv (fun p hp => absurd hp (hremove p))
    fun p hp => absurd hp (hchange p)

/-- The protection of the last owner and of the quorum, as one bound on the people that remain. -/
theorem owners_remain {target : ChainMember} {s' : MutableChainState} (h : OwnersKept s)
    (hle : (owners s).length ≤ (owners s').length + ownersRemovedBy op (some target))
    (hlast : ownersRemovedBy op (some target) = 1 → ownersCount s ≠ 1)
    (hquorum : quorumReachableAfter op s (some target) = true) (hop : isSetApprovalPolicy op = false) :
    1 ≤ (owners s').length ∧
      ∀ policy, s.approvalPolicy = some policy → policy.requiredApprovals ≤ (owners s').length := by
  have hcount := length_owners s
  have hone := h.some_owner
  have hremoved : ownersRemovedBy op (some target) ≤ 1 := by
    unfold ownersRemovedBy
    split_ifs
    · exact Nat.zero_le _
    · split
      · exact le_refl _
      · split_ifs <;> omega
      · exact Nat.zero_le _
  refine ⟨?_, fun policy hpolicy => ?_⟩
  · rcases Nat.le_one_iff_eq_zero_or_eq_one.mp hremoved with hr | hr
    · omega
    · have := hlast hr; omega
  · have hq : policy.requiredApprovals = 0 ∨
        (policy.requiredApprovals : Int) ≤ ownersCount s - ownersRemovedBy op (some target) := by
      unfold quorumReachableAfter at hquorum
      cases op with
      | setApprovalPolicy p => cases hop
      | _ => simpa [hpolicy] using hquorum
    omega

theorem ownersKept_people (hk : WellKeyed crypto s) (h : OwnersKept s) (auth : Authorized crypto s op u fp m d)
    (seq : Nat) :
    1 ≤ (owners (applyOperation crypto op s seq m.userId)).length ∧
      ∀ policy, (applyOperation crypto op s seq m.userId).approvalPolicy = some policy →
        policy.requiredApprovals ≤ (owners (applyOperation crypto op s seq m.userId)).length := by
  have hsame : isSetApprovalPolicy op = false → (∀ p, op ≠ .removeMember p) → (∀ p, op ≠ .changeRole p) →
      1 ≤ (owners (applyOperation crypto op s seq m.userId)).length ∧
        ∀ policy, (applyOperation crypto op s seq m.userId).approvalPolicy = some policy →
          policy.requiredApprovals ≤ (owners (applyOperation crypto op s seq m.userId)).length := by
    intro hset hremove hchange
    have hle := owners_length_le hk auth seq hremove hchange
    rw [approvalPolicy_applyOperation s seq m.userId hset]
    exact ⟨h.some_owner.trans hle, fun policy hpolicy => (h.quorum policy hpolicy).trans hle⟩
  cases op with
  | removeMember p =>
    obtain ⟨target, htarget⟩ := removeMemberReason_eq_none auth.rules
    rw [approvalPolicy_applyOperation s seq m.userId rfl]
    refine owners_remain h ?_ htarget.resolved.lastOwner htarget.quorum rfl
    by_cases howner : target.role = .owner
    · rw [show ownersRemovedBy (.removeMember p) (some target) = 1 by simp [ownersRemovedBy, howner]]
      exact OrderedMap.length_keysWhere_le_succ p.targetUserId fun v hv hne =>
        owner_apply hk auth seq hv (fun q hq => by cases hq; exact hne) (by simp)
    · refine (OrderedMap.length_keysWhere_le fun v hv => ?_).trans (Nat.le_add_right _ _)
      refine owner_apply hk auth seq hv (fun q hq => ?_) (by simp)
      cases hq
      rintro rfl
      obtain ⟨x, hx, hrole⟩ := mem_owners.mp hv
      rw [htarget.resolved.member] at hx
      cases hx
      exact howner hrole
  | changeRole p =>
    obtain ⟨target, htarget⟩ := changeRoleReason_eq_none auth.rules
    rw [approvalPolicy_applyOperation s seq m.userId rfl]
    refine owners_remain h ?_ htarget.resolved.lastOwner htarget.quorum rfl
    by_cases howner : target.role = .owner ∧ p.newRole ≠ .owner
    · rw [show ownersRemovedBy (.changeRole p) (some target) = 1 by simp [ownersRemovedBy, howner.1, howner.2]]
      exact OrderedMap.length_keysWhere_le_succ p.targetUserId fun v hv hne =>
        owner_apply hk auth seq hv (by simp) fun q hq heq => by cases hq; exact absurd heq hne
    · refine (OrderedMap.length_keysWhere_le fun v hv => ?_).trans (Nat.le_add_right _ _)
      refine owner_apply hk auth seq hv (by simp) fun q hq heq => ?_
      cases hq
      obtain ⟨x, hx, hrole⟩ := mem_owners.mp hv
      rw [heq, htarget.resolved.member] at hx
      cases hx
      by_contra hne
      exact howner ⟨hrole, hne⟩
  | setApprovalPolicy p =>
    have hle := owners_length_le hk auth seq (by simp) (by simp)
    have hcount := length_owners s
    refine ⟨h.some_owner.trans hle, fun policy hpolicy => ?_⟩
    have hrules := auth.rules
    simp only [consensusReason, require_eq_none, quorumReachableAfter, ownersRemovedBy, Option.map_none,
      Bool.or_eq_true, decide_eq_true_eq] at hrules
    simp only [applyOperation, applySetApprovalPolicy] at hpolicy
    split_ifs at hpolicy with hzero
    cases hpolicy
    simp only [ne_eq, reduceCtorEq, not_false_eq_true, if_true] at hrules
    refine le_trans ?_ hle
    dsimp only
    omega
  | _ => exact hsame rfl (by simp) (by simp)

theorem without_nonempty {devices : OrderedMap KeyFingerprintHex ChainDevice} {fps : List KeyFingerprintHex}
    (h : fps.length < devices.size) : ∃ fp d, (devices.without fps).get? fp = some d := by
  by_contra hnone
  have hsub : devices.keys ⊆ fps := by
    intro fp hfp
    by_contra hnot
    obtain ⟨d, hd⟩ := (OrderedMap.mem_keys _ _).mp hfp
    exact hnone ⟨fp, d, by rw [OrderedMap.get?_without, if_neg hnot]; exact hd⟩
  have hle := (List.subperm_of_subset devices.keys_nodup hsub).length_le
  rw [OrderedMap.length_keys] at hle
  omega

theorem ownersKept_device (hk : WellKeyed crypto s) (h : OwnersKept s) (auth : Authorized crypto s op u fp m d)
    (seq : Nat) (v : UserId) (x : ChainMember)
    (hx : (applyOperation crypto op s seq m.userId).members.get? v = some x) :
    ∃ f e, x.devices.get? f = some e := by
  rw [get?_members_applyOperation hk op auth.exists_environment] at hx
  cases op with
  | addMember p =>
    simp only [memberAfter] at hx
    split_ifs at hx
    · cases hx; exact ⟨_, _, OrderedMap.get?_set_self _ _ _⟩
    · exact h.device v x hx
  | changeRole p =>
    simp only [memberAfter] at hx
    split_ifs at hx
    · obtain ⟨y, hy, rfl⟩ := Option.map_eq_some_iff.mp hx
      exact h.device v y hy
    · exact h.device v x hx
  | removeMember p =>
    simp only [memberAfter] at hx
    split_ifs at hx
    exact h.device v x hx
  | deleteEnvironment p =>
    obtain ⟨y, hy, rfl⟩ := Option.map_eq_some_iff.mp hx
    obtain ⟨f, e, he⟩ := h.device v y hy
    exact ⟨f, _, (OrderedMap.get?_mapValues _ _ _).trans (by rw [he]; rfl)⟩
  | addDevice p =>
    simp only [memberAfter] at hx
    split_ifs at hx
    · obtain ⟨y, hy, rfl⟩ := Option.map_eq_some_iff.mp hx
      exact ⟨_, _, OrderedMap.get?_set_self _ _ _⟩
    · exact h.device v x hx
  | revokeDevice p =>
    obtain ⟨target, htarget⟩ := revokeDeviceReason_eq_none auth.rules
    simp only [memberAfter] at hx
    split_ifs at hx with heq
    · rw [heq, htarget.member] at hx
      cases hx
      exact without_nonempty htarget.remains
    · exact h.device v x hx
  | _ => exact h.device v x hx

end Apply

theorem applyGenesis_members {p : GenesisPayload} {actor : ChainActor} {v : UserId} {x : ChainMember}
    (hx : (applyGenesis p actor 1 .initial).members.get? v = some x) :
    x.devices = soleDevice (firstDeviceOf p.encPubHex p.sigPubHex actor.keyFingerprintHex 1) := by
  have hx := (OrderedMap.get?_set _ _ _ _).symm.trans hx
  split_ifs at hx with hv
  · cases hx; rfl
  · cases hx

theorem ownersKept_genesis (p : GenesisPayload) (actor : ChainActor) :
    OwnersKept (applyGenesis p actor 1 .initial) := by
  refine ⟨?_, fun _ h => (nomatch h), ?_⟩
  · have howners : owners (applyGenesis p actor 1 .initial) = [actor.userId] := rfl
    rw [howners, List.length_singleton]
  · intro v x hx
    rw [applyGenesis_members hx]
    exact ⟨_, _, OrderedMap.get?_set_self _ _ _⟩

/-- From the first entry on: owners, a reachable quorum of them, and a device for each member. -/
theorem runs_ownersKept {crypto : Crypto} {history : Option ChainHistoryBuilder} {entries : List Json}
    {loop : LoopState} (hrun : Runs crypto history entries loop) :
    (entries = [] ∧ loop.state = .initial) ∨ OwnersKept loop.state := by
  refine reaches_induction hrun (P := fun pre l => (pre = [] ∧ l.state = .initial) ∨ OwnersKept l.state)
    (Or.inl ⟨rfl, rfl⟩) ?_
  intro pre j l l' _ hreach h hstep
  obtain ⟨entry, hash, applied, hacc⟩ := verifyEntry_ok hstep
  have hkeyed := (runs_sound hreach).keyed
  have hkept : ∀ {u fp x}, deviceOf l.state.members u fp = some x → OwnersKept l.state := by
    intro u fp x hx
    rcases h with ⟨-, h⟩ | h
    · rw [h] at hx; cases hx
    · exact h
  have hout := step_outcome hreach hacc List.prefix_rfl
  generalize l'.state = s' at hout
  cases hout with
  | genesis p hop hloop hseq hmem hfp => exact Or.inr (ownersKept_genesis p _)
  | waits pending m d hactor =>
    have hl := hkept hactor
    exact Or.inr ⟨hl.some_owner, hl.quorum, hl.device⟩
  | applies op u fp m d pending hmem auth happlied =>
    have hl := hkept auth.device
    have hpeople := ownersKept_people hkeyed hl auth (l.seq + 1)
    exact Or.inr ⟨hpeople.1, hpeople.2, fun v x hx => ownersKept_device hkeyed hl auth (l.seq + 1) v x hx⟩

/-! ## Devices -/

/-- Every applied revoke_device of one of these people leaves them a device whose cap is owner. -/
def RevocationsKeepOwnerCap (crypto : Crypto) (entries : List Json) (people : List UserId) : Prop :=
  ∀ n s j entry p, stateAfter crypto (entries.take n) = some s → entries[n]? = some j →
    checkPayloadShape j = some entry → entry.operation = .direct (.revokeDevice p) → p.targetUserId ∈ people →
    ∃ m fp d, s.members.get? p.targetUserId = some m ∧ fp ∉ p.deviceFingerprintsHex ∧
      m.devices.get? fp = some d ∧ d.roleCap = .owner

/-- Each of these people who is a member holds a device whose cap is owner. -/
def OwnerCaps (people : List UserId) (s : MutableChainState) : Prop :=
  ∀ u ∈ people, ∀ m, s.members.get? u = some m → ∃ fp d, m.devices.get? fp = some d ∧ d.roleCap = .owner

theorem ownerCaps_apply {crypto : Crypto} {K : List (JsString × JsString)}
    (hK : ∀ k ∈ K, ∀ k' ∈ K, userFingerprintHex crypto k.1 k.2 = userFingerprintHex crypto k'.1 k'.2 → k = k')
    {s : MutableChainState} {op : ProposableOperation} {u : UserId} {fp : KeyFingerprintHex} {m : ChainMember}
    {d : ChainDevice} {people : List UserId} (hk : WellKeyed crypto s) (hkeys : KeysUnique K s) (h : OwnerCaps people s)
    (hop : ∀ k, registeredKey op = some k → k ∈ K) (auth : Authorized crypto s op u fp m d) (seq : Nat)
    (hrevoke : ∀ p, op = .revokeDevice p → p.targetUserId ∈ people → ∃ m fp d,
      s.members.get? p.targetUserId = some m ∧ fp ∉ p.deviceFingerprintsHex ∧ m.devices.get? fp = some d ∧
        d.roleCap = .owner) : OwnerCaps people (applyOperation crypto op s seq m.userId) := by
  intro v hv x hx
  rw [get?_members_applyOperation hk op auth.exists_environment] at hx
  cases op with
  | addMember p =>
    simp only [memberAfter] at hx
    split_ifs at hx
    · cases hx; exact ⟨_, _, OrderedMap.get?_set_self _ _ _, rfl⟩
    · exact h v hv x hx
  | changeRole p =>
    simp only [memberAfter] at hx
    split_ifs at hx
    · obtain ⟨y, hy, rfl⟩ := Option.map_eq_some_iff.mp hx
      exact h v hv y hy
    · exact h v hv x hx
  | removeMember p =>
    simp only [memberAfter] at hx
    split_ifs at hx
    exact h v hv x hx
  | deleteEnvironment p =>
    obtain ⟨y, hy, rfl⟩ := Option.map_eq_some_iff.mp hx
    obtain ⟨f, e, he, hcap⟩ := h v hv y hy
    exact ⟨f, pruneDevice p.environmentId e, (OrderedMap.get?_mapValues _ _ _).trans (by rw [he]; rfl), hcap⟩
  | addDevice p =>
    simp only [memberAfter] at hx
    split_ifs at hx
    · obtain ⟨y, hy, rfl⟩ := Option.map_eq_some_iff.mp hx
      obtain ⟨f, e, he, hcap⟩ := h v hv y hy
      -- The new device takes a free place, so the old one is still there.
      have hfree := currentDevice_fresh hk hkeys hK (addDeviceReason_eq_none auth.rules).keys (hop _ rfl) v
      have hne : f ≠ (addedDevice crypto p seq).keyFingerprintHex := by
        rintro rfl
        rw [currentDevice, hy] at hfree
        exact Option.some_ne_none e (he.symm.trans hfree)
      exact ⟨f, e, (OrderedMap.get?_set_ne _ _ hne).trans he, hcap⟩
    · exact h v hv x hx
  | revokeDevice p =>
    simp only [memberAfter] at hx
    split_ifs at hx with heq
    · obtain ⟨target, f, e, hfound, hf, he, hcap⟩ := hrevoke p rfl (heq ▸ hv)
      rw [heq, hfound] at hx
      cases hx
      exact ⟨f, e, by rw [memberWithoutDevices, OrderedMap.get?_without, if_neg hf]; exact he, hcap⟩
    · exact h v hv x hx
  | _ => exact h v hv x hx

theorem runs_ownerCaps {crypto : Crypto} {entries : List Json} {loop : LoopState}
    {people : List UserId} (hrun : Runs crypto none entries loop) (hdistinct : FingerprintsDistinct crypto entries)
    (hrevoke : RevocationsKeepOwnerCap crypto entries people) : OwnerCaps people loop.state := by
  refine reaches_induction hrun (P := fun _ loop => OwnerCaps people loop.state) (fun _ _ _ h => (nomatch h)) ?_
  intro pre j l l' hpre hreach hcaps hstep
  obtain ⟨entry, hash, applied, hacc⟩ := verifyEntry_ok hstep
  obtain ⟨htake, hget⟩ := take_of_snoc_prefix hpre
  have hkeyed := (runs_sound hreach).keyed
  have hkeys := runs_keysUnique hreach ((List.prefix_append pre [j]).trans hpre) hdistinct
  have hout := step_outcome hreach hacc hpre
  generalize l'.state = s' at hout
  cases hout with
  | genesis p hop hloop hseq hmem hfp =>
    intro v _ x hx
    rw [applyGenesis_members hx]
    exact ⟨_, _, OrderedMap.get?_set_self _ _ _, rfl⟩
  | waits pending m d hactor => exact hcaps
  | applies op u fp m d pending hmem auth happlied =>
    refine ownerCaps_apply hdistinct hkeyed hkeys hcaps (fun k hk => mem_registeredKeys hmem hk) auth (l.seq + 1) ?_
    rintro p rfl
    cases happlied with
    | entry hop hgenesis huser hfp htarget =>
      exact hrevoke pre.length l.state j entry p
        (stateAfter_eq_some.mpr ⟨l, by rw [htake]; exact hreach, rfl⟩) hget hacc.shape hop
    | approve h q hop hpending hinner huser hfp htarget =>
      unfold isApprovalTarget at htarget
      split at htarget
      · cases htarget
      · simp [isSetApprovalPolicy, establishesOwner, approvalTargetOpOf] at htarget

theorem owners_subset_effectiveOwners {s : MutableChainState} (h : OwnerCaps (owners s) s) :
    ∀ u ∈ owners s, u ∈ effectiveOwners s := by
  intro u hu
  obtain ⟨m, hm, hrole⟩ := mem_owners.mp hu
  exact OrderedMap.mem_keysWhere.mpr ⟨m, hm, canActAsOwner_iff.mpr ⟨hrole, h u hu m hm⟩⟩

/-- Owners and their quorum are never lost as people. As devices they are kept too, in every list whose revocations
leave each person who is an owner in the end a device whose cap is owner. -/
theorem owner_authority (crypto : Crypto) (entries : List Json) (st : ChainState)
    (h : verifyChain crypto entries = .ok st) :
    ∃ s, stateAfter crypto entries = some s ∧
      (1 ≤ (owners s).length ∧
        (∀ policy, s.approvalPolicy = some policy → policy.requiredApprovals ≤ (owners s).length) ∧
        ∀ u m, s.members.get? u = some m → ∃ fp d, m.devices.get? fp = some d) ∧
      (FingerprintsDistinct crypto entries → RevocationsKeepOwnerCap crypto entries (owners s) →
        1 ≤ (effectiveOwners s).length ∧
          ∀ policy, s.approvalPolicy = some policy → policy.requiredApprovals ≤ (effectiveOwners s).length) := by
  obtain ⟨hne, loop, hrun, -⟩ := verifyChain_ok_iff.mp h
  have hkept : OwnersKept loop.state := (runs_ownersKept hrun).resolve_left fun hnil => hne hnil.1
  refine ⟨loop.state, stateAfter_eq_some.mpr ⟨loop, hrun, rfl⟩, ⟨hkept.some_owner, hkept.quorum, hkept.device⟩, ?_⟩
  intro hdistinct hrevoke
  have hle := OrderedMap.length_keysWhere_le
    (owners_subset_effectiveOwners (runs_ownerCaps hrun hdistinct hrevoke))
  exact ⟨hkept.some_owner.trans hle, fun policy hpolicy => (hkept.quorum policy hpolicy).trans hle⟩

/-! ## Revocations of one owner -/

def spareKey : ExampleKey where
  enc := hex 32 0xb1b1664ba601565b05700eb7cf0872a197c56f75b0ceafa9a027207f461cd5d2
  sig := hex 32 0x58aa04c3a1f413520fff839352de25c5edfd880d8728a483d81c19d370b689e6
  fingerprint := hex 16 0xe4000e19a999ce3314436cfbc75cb5a0

/-- One owner, who adds a reader device and revokes it. -/
def keptEntries : List ChainEntry :=
  [exampleEntry 1 genesisPrevHash (.direct (.genesis { encPubHex := notaryKey.enc, sigPubHex := notaryKey.sig }))
    "alice" notaryKey
    0x0ef3ea47921873938f0ebfec0c824b0c543707ec5629882f8058953cef6bd72a183fb51aa2aa2f1e76dd267375ac93272ab997aa2469fe8959eec98390b84603,
  exampleEntry 2 (hex 32 0xa83dcd548d75f64510685f5239ee807d15be5820bbdae87a5e124e34f42dfa31)
    (.direct (.addDevice {
      encPubHex := spareKey.enc, sigPubHex := spareKey.sig, roleCap := .reader, scopeKind := .all, scopeEnvironmentIds := [] }))
    "alice" notaryKey
    0x1b88a746bbc2aeab3877efa501161369ae8c910a94bc6c933bb419466e0147fa410d4139fb301cdb9c84c82f1a64d5f05e85151e46c797ba388d6d47b202f902,
  exampleEntry 3 (hex 32 0x7af2bb3fe64b31496a2960936fd2309fbf0218eda432df5719cab47bb78f6066)
    (.direct (.revokeDevice { targetUserId := lit "alice", deviceFingerprintsHex := [spareKey.fingerprint] }))
    "alice" notaryKey
    0x3e49fa9363c5f87e3653e9a1864774bc0299928d79f94a5ba50e8bbb33d94e21bf3e22672ebce2c614a8eaf7dcfe7190c260a68591b4d3644dbe4584cb4bf90e]

def keptCrypto : Crypto := signedBy [notaryKey] keptEntries

def keptChain : List Json := keptEntries.map entryJson

set_option maxRecDepth 100000 in
theorem keptChain_states : (stateAfter keptCrypto keptChain).isSome = true ∧
    FingerprintsDistinct keptCrypto keptChain ∧
    (stateAfter keptCrypto (keptChain.take 2)).any (fun s => (s.members.get? (lit "alice")).any fun m =>
      (m.devices.get? notaryKey.fingerprint).any fun d => d.roleCap = .owner) = true := by
  rw [keptCrypto, signedBy_eq_lookup _ _ []]
  decide +kernel

set_option maxRecDepth 100000 in
theorem keptEntries_read : ∀ entry ∈ keptEntries, checkPayloadShape (entryJson entry) = some entry := by decide +kernel

set_option maxRecDepth 100000 in
/-- The owner who revokes a reader device keeps the one they can act as owner with. -/
theorem owner_authority_example : ∃ s, stateAfter keptCrypto keptChain = some s ∧ 1 ≤ (effectiveOwners s).length := by
  obtain ⟨hsome, hdistinct, hbefore⟩ := keptChain_states
  obtain ⟨s, hs⟩ := Option.isSome_iff_exists.mp hsome
  obtain ⟨st, h⟩ := verifyChain_of_stateAfter (by decide) hs
  obtain ⟨s, hs, -, heffective⟩ := owner_authority _ _ st h
  refine ⟨s, hs, (heffective hdistinct ?_).1⟩
  intro n t j entry p ht hj hshape hop _
  simp only [Option.any_eq_true, decide_eq_true_eq] at hbefore
  obtain ⟨t', ht', m, hm, d, hd, hcap⟩ := hbefore
  unfold keptChain at hj
  rw [List.getElem?_map, Option.map_eq_some_iff] at hj
  obtain ⟨entry', hentry', rfl⟩ := hj
  rw [keptEntries_read entry' (List.mem_of_getElem? hentry'), Option.some.injEq] at hshape
  subst hshape
  have hrevokes : n = 2 ∧ p = ⟨lit "alice", [spareKey.fingerprint]⟩ := by
    unfold keptEntries at hentry'
    match n with
    | 0 => cases hentry'; cases hop
    | 1 => cases hentry'; cases hop
    | 2 => cases hentry'; cases hop; exact ⟨rfl, rfl⟩
  obtain ⟨rfl, rfl⟩ := hrevokes
  cases ht.symm.trans ht'
  exact ⟨m, notaryKey.fingerprint, d, hm, by decide, hd, hcap⟩

set_option maxRecDepth 100000 in
theorem demotedChain_owners : (stateAfter exampleCrypto demotedChain).map effectiveOwners = some [] := by
  rw [exampleCrypto_eq []]
  decide +kernel

/-- An owner may revoke the last of their devices that can act as owner. -/
theorem owner_authority_fails : ∃ st s, verifyChain exampleCrypto demotedChain = .ok st ∧
    stateAfter exampleCrypto demotedChain = some s ∧ effectiveOwners s = [] := by
  obtain ⟨s, hs, howners⟩ := Option.map_eq_some_iff.mp demotedChain_owners
  obtain ⟨st, hst⟩ := verifyChain_of_stateAfter (by decide) hs
  exact ⟨st, s, hst, hs, howners⟩

end Maruhi.Chain
