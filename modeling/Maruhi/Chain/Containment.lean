import Maruhi.Chain.Wire

/-!
# Containment of stolen devices

The cap of an added device is compared once, with its adder's, when it is added. The bound is
carried from there along the whole lineage.
-/

open Run Text

namespace Maruhi.Chain

/-- One cap grants no more than another. -/
def CapWithin (candidate bound : DeviceCap) : Prop :=
  roleRank candidate.roleCap ≤ roleRank bound.roleCap ∧ candidate.scope.Within bound.scope

theorem capWithin_refl (c : DeviceCap) : CapWithin c c := ⟨le_refl _, within_refl _⟩

theorem capWithin_trans {a b c : DeviceCap} (hab : CapWithin a b) (hbc : CapWithin b c) : CapWithin a c :=
  ⟨hab.1.trans hbc.1, within_trans hab.2 hbc.2⟩

theorem minRole_mono_right {a b : Role} (person : Role) (h : roleRank a ≤ roleRank b) :
    roleRank (minRole person a) ≤ roleRank (minRole person b) := by
  unfold minRole
  split_ifs <;> omega

theorem permission_mono {a b : DeviceCap} (m : ChainMember) (h : CapWithin a b) :
    roleRank (effectivePermissionOf m a).role ≤ roleRank (effectivePermissionOf m b).role ∧
      ∀ e, (effectivePermissionOf m a).scope.Has e → (effectivePermissionOf m b).scope.Has e := by
  refine ⟨minRole_mono_right m.role h.1, fun e he => ?_⟩
  obtain ⟨hperson, hcap⟩ := (has_effectiveScope m a e).mp he
  exact (has_effectiveScope m b e).mpr ⟨hperson, within_has h.2 hcap⟩

/-! ## Where a device comes from -/

/-- A device of the next state was there with no lesser cap, was added by a device of the same person
with no lesser cap, or is the first of a new member. -/
inductive DeviceOrigin (crypto : Crypto) (s : MutableChainState) (op : ProposableOperation) (seq : Nat)
    (m : ChainMember) (d : ChainDevice) (v : UserId) (f : KeyFingerprintHex) (e' : ChainDevice) : Prop
  | kept (x : ChainMember) (e : ChainDevice) (hx : s.members.get? v = some x) (he : x.devices.get? f = some e)
      (hseq : e'.addedSeq = e.addedSeq) (hcap : CapWithin e'.toDeviceCap e.toDeviceCap)
  | added (p : AddDevicePayload) (hop : op = .addDevice p) (hv : v = m.userId) (hnew : e' = addedDevice crypto p seq)
      (hcap : CapWithin e'.toDeviceCap d.toDeviceCap)
  | first (p : AddMemberPayload) (hop : op = .addMember p) (hfresh : s.members.get? v = none)
      (hseq : e'.addedSeq = seq)

theorem device_origin {crypto : Crypto} {s : MutableChainState} (hk : WellKeyed crypto s) {op : ProposableOperation}
    {u : UserId} {fp : KeyFingerprintHex} {m : ChainMember} {d : ChainDevice} (auth : Authorized crypto s op u fp m d)
    {seq : Nat} {v : UserId} {x' : ChainMember} {f : KeyFingerprintHex} {e' : ChainDevice}
    (hx' : (applyOperation crypto op s seq m.userId).members.get? v = some x') (he' : x'.devices.get? f = some e') :
    DeviceOrigin crypto s op seq m d v f e' := by
  rw [get?_members_applyOperation hk op auth.exists_environment] at hx'
  have hold : s.members.get? v = some x' → DeviceOrigin crypto s op seq m d v f e' :=
    fun hx => .kept x' e' hx he' rfl (capWithin_refl _)
  cases op with
  | addMember p =>
    simp only [memberAfter] at hx'
    split_ifs at hx' with hv
    · cases hx'
      obtain ⟨rfl, -⟩ := soleDevice_get? he'
      exact .first p rfl (hv ▸ (addMemberReason_eq_none auth.rules).fresh) rfl
    · exact hold hx'
  | changeRole p =>
    simp only [memberAfter] at hx'
    split_ifs at hx'
    · obtain ⟨x, hx, rfl⟩ := Option.map_eq_some_iff.mp hx'
      exact .kept x e' hx he' rfl (capWithin_refl _)
    · exact hold hx'
  | removeMember p =>
    simp only [memberAfter] at hx'
    split_ifs at hx'
    exact hold hx'
  | deleteEnvironment p =>
    obtain ⟨x, hx, rfl⟩ := Option.map_eq_some_iff.mp hx'
    obtain ⟨e, he, rfl⟩ := Option.map_eq_some_iff.mp ((OrderedMap.get?_mapValues _ _ _).symm.trans he')
    exact .kept x e hx he rfl ⟨le_refl _, scopeWithout_within _ _⟩
  | addDevice p =>
    simp only [memberAfter] at hx'
    split_ifs at hx' with hv
    · obtain ⟨x, hx, rfl⟩ := Option.map_eq_some_iff.mp hx'
      rw [memberWithDevice, OrderedMap.get?_set] at he'
      split_ifs at he'
      · cases he'
        exact .added p rfl hv rfl ((capWithinCap_iff _ _).mp (addDeviceReason_eq_none auth.rules).cap)
      · exact .kept x e' hx he' rfl (capWithin_refl _)
    · exact hold hx'
  | revokeDevice p =>
    simp only [memberAfter] at hx'
    split_ifs at hx'
    · obtain ⟨x, hx, rfl⟩ := Option.map_eq_some_iff.mp hx'
      rw [memberWithoutDevices, OrderedMap.get?_without] at he'
      split_ifs at he'
      exact .kept x e' hx he' rfl (capWithin_refl _)
    · exact hold hx'
  | _ => exact hold hx'

/-- Devices are stamped with the seq of an entry that has been read. -/
def StampedBy (n : Nat) (s : MutableChainState) : Prop :=
  ∀ u m fp d, s.members.get? u = some m → m.devices.get? fp = some d → d.addedSeq ≤ n

theorem stampedBy_of_stateAfter {crypto : Crypto} {entries : List Json} {s : MutableChainState}
    (h : stateAfter crypto entries = some s) : StampedBy entries.length s := by
  obtain ⟨loop, hrun, rfl⟩ := stateAfter_eq_some.mp h
  rw [← runs_seq hrun]
  refine state_induction hrun (I := StampedBy) (Q := fun _ => True) (fun _ _ => trivial)
    (fun _ _ _ _ h => (nomatch h)) ?_ (fun _ _ _ h => h) ?_ ?_
  · exact fun n s u fp m d _ h v x f e hx he => (h v x f e hx he).trans (Nat.le_succ n)
  · intro p actor _ _ v x f e hx he
    have hx := (OrderedMap.get?_set _ _ _ _).symm.trans hx
    split_ifs at hx
    · cases hx
      obtain ⟨rfl, -⟩ := soleDevice_get? he
      exact le_refl _
    · cases hx
  · intro n s op u fp m d _ hk h auth v x' f e' hx' he'
    cases device_origin hk auth hx' he' with
    | kept x e hx he hseq hcap => rw [hseq]; exact (h v x f e hx he).trans (Nat.le_succ n)
    | added p hop hv hnew hcap => rw [hnew]; exact le_refl _
    | first p hop hfresh hseq => exact hseq.le

/-! ## The extension -/

/-- Every entry of `u` from position `b` on is signed by a device of `D`, or by one added from there on. -/
def SignsBy (crypto : Crypto) (entries : List Json) (b : Nat) (u : UserId) (D : Set KeyFingerprintHex) : Prop :=
  ∀ n s entry hash s' applied, b ≤ n → EntryAt crypto entries n s entry hash s' applied → entry.actor.userId = u →
    entry.actor.keyFingerprintHex ∈ D ∨
      ∃ m d, deviceOf s.members u entry.actor.keyFingerprintHex = some (m, d) ∧ b < d.addedSeq

/-- `u` is a member in every state from position `a` to position `n`. -/
def MemberThroughout (crypto : Crypto) (entries : List Json) (u : UserId) (a n : Nat) : Prop :=
  ∀ k s, a ≤ k → k ≤ n → stateAfter crypto (entries.take k) = some s → s.members.has u = true

/-- A cap some device of `D` bounds, by the cap it had for the member `m₀`. -/
def BoundedBy (m₀ : ChainMember) (D : Set KeyFingerprintHex) (cap : DeviceCap) : Prop :=
  ∃ fp ∈ D, ∃ d₀, m₀.devices.get? fp = some d₀ ∧ CapWithin cap d₀.toDeviceCap

/-- Devices added after `b` are bounded, those from before have lost nothing but permission. -/
structure Contained (b : Nat) (m₀ : ChainMember) (D : Set KeyFingerprintHex) (m : ChainMember) : Prop where
  added : ∀ fp d, m.devices.get? fp = some d → b < d.addedSeq → BoundedBy m₀ D d.toDeviceCap
  before : ∀ fp d, m.devices.get? fp = some d → d.addedSeq ≤ b →
    ∃ d₀, m₀.devices.get? fp = some d₀ ∧ CapWithin d.toDeviceCap d₀.toDeviceCap

theorem boundedBy_of_signs {b : Nat} {m₀ m : ChainMember} {D : Set KeyFingerprintHex} {s : MutableChainState}
    {u : UserId} {fp : KeyFingerprintHex} {d : ChainDevice} (h : Contained b m₀ D m)
    (hdev : deviceOf s.members u fp = some (m, d))
    (hsigns : fp ∈ D ∨ ∃ x e, deviceOf s.members u fp = some (x, e) ∧ b < e.addedSeq) :
    BoundedBy m₀ D d.toDeviceCap := by
  have hd := (deviceOf_eq_some.mp hdev).2
  by_cases hseq : b < d.addedSeq
  · exact h.added fp d hd hseq
  · rcases hsigns with hD | ⟨x, e, he, hlt⟩
    · obtain ⟨d₀, hd₀, hcap⟩ := h.before fp d hd (by omega)
      exact ⟨fp, hD, d₀, hd₀, hcap⟩
    · rw [hdev] at he
      cases he
      exact absurd hlt hseq

theorem contained_step {crypto : Crypto} {entries : List Json} {b n : Nat} {u : UserId} {D : Set KeyFingerprintHex}
    {m₀ : ChainMember} (hsigns : SignsBy crypto entries b u D) (hbn : b ≤ n) {s s' : MutableChainState}
    {entry : ChainEntry} {hash : JsString} {applied : Option AppliedOperation}
    (hat : EntryAt crypto entries n s entry hash s' applied) (hmember : s.members.has u = true)
    (h : ∀ m, s.members.get? u = some m → Contained b m₀ D m) :
    ∀ m', s'.members.get? u = some m' → Contained b m₀ D m' := by
  obtain ⟨m, hm⟩ := (OrderedMap.has_iff _ _).mp hmember
  have hbase := h m hm
  intro m' hm'
  have hout := hat.outcome
  have hk := hat.keyed
  cases hout with
  | genesis p hop hs hn hmem hfp => rw [hs] at hm; cases hm
  | waits pending x d hactor => exact h m' hm'
  | applies op v fp x d pending hmem auth happlied =>
    have horigin := fun f e' (he' : m'.devices.get? f = some e') => device_origin hk auth hm' he'
    refine ⟨fun f e' he' hlt => ?_, fun f e' he' hle => ?_⟩
    · cases horigin f e' he' with
      | kept y e hy he hseq hcap =>
        rw [hm] at hy
        cases hy
        obtain ⟨fp₀, hfp₀, d₀, hd₀, hbound⟩ := hbase.added f e he (hseq ▸ hlt)
        exact ⟨fp₀, hfp₀, d₀, hd₀, capWithin_trans hcap hbound⟩
      | added p hop hv hnew hcap =>
        -- An add_device is no target, so its entry is the acting device's own.
        cases happlied with
        | entry hentry hgenesis huser hfp htarget =>
          have hu : v = u := (auth.userId_eq hk).symm.trans hv.symm
          have hdev := auth.device
          rw [hu] at hdev
          have hx : x = m := Option.some.inj ((deviceOf_eq_some.mp hdev).1.symm.trans hm)
          rw [hx, hfp] at hdev
          obtain ⟨fp₀, hfp₀, d₀, hd₀, hbound⟩ :=
            boundedBy_of_signs hbase hdev (hsigns n s entry hash _ _ hbn hat (huser.symm.trans hu))
          exact ⟨fp₀, hfp₀, d₀, hd₀, capWithin_trans hcap hbound⟩
        | approve href q hentry hpending hinner huser hfp htarget =>
          rw [hop] at htarget
          unfold isApprovalTarget at htarget
          split at htarget
          · cases htarget
          · simp [isSetApprovalPolicy, establishesOwner, approvalTargetOpOf] at htarget
      | first p hop hfresh hseq => rw [hm] at hfresh; cases hfresh
    · cases horigin f e' he' with
      | kept y e hy he hseq hcap =>
        rw [hm] at hy
        cases hy
        obtain ⟨d₀, hd₀, hbound⟩ := hbase.before f e he (hseq ▸ hle)
        exact ⟨d₀, hd₀, capWithin_trans hcap hbound⟩
      | added p hop hv hnew hcap =>
        rw [hnew] at hle
        simp only [addedDevice] at hle
        omega
      | first p hop hfresh hseq => rw [hm] at hfresh; cases hfresh

/-- As long as `u` stays a member and only devices of `D` and devices added from here on sign for `u`,
every added device of `u` is bounded by the cap a device of `D` has here, and so is what it grants. -/
theorem stolen_device_containment (crypto : Crypto) (base ext : List Json) (st : ChainState)
    (s₀ : MutableChainState) (u : UserId) (m₀ : ChainMember) (D : Set KeyFingerprintHex)
    (hbase : stateAfter crypto base = some s₀) (hm₀ : s₀.members.get? u = some m₀)
    (hext : verifyChain crypto (base ++ ext) = .ok st) (hsigns : SignsBy crypto (base ++ ext) base.length u D) :
    ∀ n, base.length ≤ n → n ≤ (base ++ ext).length → MemberThroughout crypto (base ++ ext) u base.length n →
      ∃ s m, stateAfter crypto ((base ++ ext).take n) = some s ∧ s.members.get? u = some m ∧
        ∀ fp d, m.devices.get? fp = some d → base.length < d.addedSeq →
          ∃ fp₀ ∈ D, ∃ d₀, m₀.devices.get? fp₀ = some d₀ ∧
            roleRank d.roleCap ≤ roleRank d₀.roleCap ∧ d.scope.Within d₀.scope ∧
            roleRank (effectivePermissionOf m d.toDeviceCap).role ≤
              roleRank (effectivePermissionOf m d₀.toDeviceCap).role ∧
            ∀ e, (effectivePermissionOf m d.toDeviceCap).scope.Has e →
              (effectivePermissionOf m d₀.toDeviceCap).scope.Has e := by
  intro n hbn hn hthrough
  obtain ⟨s, hs⟩ := stateAfter_take hext n
  obtain ⟨m, hm⟩ := (OrderedMap.has_iff _ _).mp (hthrough n s hbn (le_refl n) hs)
  have hstamped := stampedBy_of_stateAfter hbase
  have hcontained : MemberThroughout crypto (base ++ ext) u base.length n →
      ∀ m, s.members.get? u = some m → Contained base.length m₀ D m := by
    refine entry_induction (stateAfter_append hbase) (P := fun n s =>
      MemberThroughout crypto (base ++ ext) u base.length n →
        ∀ m, s.members.get? u = some m → Contained base.length m₀ D m) ?_ ?_ hbn hn hs
    · intro _ m hm
      rw [hm₀] at hm
      cases hm
      refine ⟨fun fp d hd hlt => ?_, fun fp d hd _ => ⟨d, hd, capWithin_refl _⟩⟩
      have := hstamped u m₀ fp d hm₀ hd
      omega
    · intro k s entry hash s' applied hbk hk hat ih hthrough
      have hprev : MemberThroughout crypto (base ++ ext) u base.length k :=
        fun i t hbi hik => hthrough i t hbi (Nat.le_succ_of_le hik)
      exact contained_step hsigns hbk hat (hprev k s hbk (le_refl k) hat.before) (ih hprev)
  refine ⟨s, m, hs, hm, fun fp d hd hlt => ?_⟩
  obtain ⟨fp₀, hfp₀, d₀, hd₀, hcap⟩ := (hcontained hthrough m hm).added fp d hd hlt
  obtain ⟨hrole, hscope⟩ := permission_mono m hcap
  exact ⟨fp₀, hfp₀, d₀, hd₀, hcap.1, hcap.2, hrole, hscope⟩

set_option maxRecDepth 100000 in
theorem demotedChain_signer : (demotedChain.all fun j => (checkPayloadShape j).all fun entry =>
    entry.actor.keyFingerprintHex = aliceKey.fingerprint) = true := by decide +kernel

set_option maxRecDepth 100000 in
theorem demotedChain_members : ∀ k < 4, 1 ≤ k → (stateAfter exampleCrypto (demotedChain.take k)).any
    (fun s => s.members.has (lit "alice")) = true := by
  rw [exampleCrypto_eq []]
  decide +kernel

/-- The device that the owner's one device adds stays below it, also when that one is revoked. -/
theorem stolen_device_containment_example : ∃ s₀ m₀ s m, stateAfter exampleCrypto (demotedChain.take 1) = some s₀ ∧
    s₀.members.get? (lit "alice") = some m₀ ∧ stateAfter exampleCrypto demotedChain = some s ∧
    s.members.get? (lit "alice") = some m ∧ ∀ fp d, m.devices.get? fp = some d → 1 < d.addedSeq →
      ∃ d₀, m₀.devices.get? aliceKey.fingerprint = some d₀ ∧ roleRank d.roleCap ≤ roleRank d₀.roleCap := by
  have hmember : ∀ k < 4, 1 ≤ k → ∃ s, stateAfter exampleCrypto (demotedChain.take k) = some s ∧
      s.members.has (lit "alice") = true := fun k hk h1 => by
    simpa [Option.any_eq_true] using demotedChain_members k hk h1
  obtain ⟨s₀, hbase, hhas⟩ := hmember 1 (by decide) (by decide)
  obtain ⟨m₀, hm₀⟩ := (OrderedMap.has_iff _ _).mp hhas
  obtain ⟨sₑ, hₑ, -⟩ := hmember 3 (by decide) (by decide)
  have hext : ∃ st, verifyChain exampleCrypto (demotedChain.take 1 ++ demotedChain.drop 1) = .ok st :=
    verifyChain_of_stateAfter (by decide) hₑ
  obtain ⟨st, hext⟩ := hext
  have hsigns : SignsBy exampleCrypto (demotedChain.take 1 ++ demotedChain.drop 1) (demotedChain.take 1).length
      (lit "alice") {aliceKey.fingerprint} := by
    intro n s entry hash s' applied hn hat hactor
    obtain ⟨j, hj, hshape⟩ := hat.read
    have hall := List.all_eq_true.mp demotedChain_signer j (List.mem_of_getElem? hj)
    rw [hshape, Option.all_some, decide_eq_true_eq] at hall
    exact Or.inl hall
  have hthrough : MemberThroughout exampleCrypto (demotedChain.take 1 ++ demotedChain.drop 1) (lit "alice") 1 3 := by
    intro k s h1 hk hs
    obtain ⟨s', hs', hhas⟩ := hmember k (by omega) h1
    have hs : stateAfter exampleCrypto (demotedChain.take k) = some s := hs
    rw [hs'] at hs
    cases hs
    exact hhas
  obtain ⟨s, m, hs, hm, hbound⟩ := stolen_device_containment _ _ _ st s₀ _ m₀ _ hbase hm₀ hext hsigns 3 (by decide)
    (by decide) hthrough
  refine ⟨s₀, m₀, s, m, hbase, hm₀, hs, hm, fun fp d hd hadded => ?_⟩
  obtain ⟨fp₀, hfp₀, d₀, hd₀, hrole, -⟩ := hbound fp d hd hadded
  cases hfp₀
  exact ⟨d₀, hd₀, hrole⟩

end Maruhi.Chain
