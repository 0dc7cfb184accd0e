import Mathlib.Data.Set.Basic
import Maruhi.Chain.Keys

/-!
# Environment isolation

What a device whose effective scope is listed does to an environment outside the scope: nothing,
but for the devices it revokes of its own person.
-/

namespace Maruhi.Chain

/-- The device an accepted entry acts by: the proposal's where an approve applies it, the signer's elsewhere. -/
def authorizingDevice (s : MutableChainState) (entry : ChainEntry) (applied : Option AppliedOperation) :
    Option (ChainMember × ChainDevice) :=
  match entry.operation, applied with
  | .approve h, some _ => (s.pendingProposals.get? h).bind fun pending =>
      deviceOf s.members pending.proposerUserId pending.proposerKeyFingerprintHex
  | _, _ => deviceOf s.members entry.actor.userId entry.actor.keyFingerprintHex

/-- The member's device reaches the environment under this effective role. -/
def DeviceReaches (member : Option ChainMember) (fp : KeyFingerprintHex) (role : Role) (e : EnvironmentId) : Prop :=
  ∃ m d, member = some m ∧ m.devices.get? fp = some d ∧ (effectivePermissionOf m d.toDeviceCap).role = role ∧
    (effectivePermissionOf m d.toDeviceCap).scope.Has e

/-- The triples (user id, device, effective role) that reach an environment. -/
def accessTo (s : MutableChainState) (e : EnvironmentId) : Set (UserId × KeyFingerprintHex × Role) :=
  { t | DeviceReaches (s.members.get? t.1) t.2.1 t.2.2 e }

theorem mem_accessTo {s : MutableChainState} {e : EnvironmentId} {t : UserId × KeyFingerprintHex × Role} :
    t ∈ accessTo s e ↔ DeviceReaches (s.members.get? t.1) t.2.1 t.2.2 e := Iff.rfl

theorem deviceReaches_some {m : ChainMember} {fp : KeyFingerprintHex} {role : Role} {e : EnvironmentId} :
    DeviceReaches (some m) fp role e ↔ ∃ d, m.devices.get? fp = some d ∧
      (effectivePermissionOf m d.toDeviceCap).role = role ∧ (effectivePermissionOf m d.toDeviceCap).scope.Has e := by
  simp only [DeviceReaches, Option.some.injEq, exists_and_left, exists_eq_left']

theorem not_deviceReaches {member : Option ChainMember} {fp : KeyFingerprintHex} {role : Role} {e : EnvironmentId}
    (h : ∀ m, member = some m → ¬ m.scope.Has e) : ¬ DeviceReaches member fp role e := by
  rintro ⟨m, d, hm, -, -, hscope⟩
  exact h m hm ((has_effectiveScope m d.toDeviceCap e).mp hscope).1

theorem deviceReaches_congr (m m' : ChainMember) {fp : KeyFingerprintHex} {e : EnvironmentId}
    (f : ChainDevice → ChainDevice) (hdevices : m'.devices.get? fp = (m.devices.get? fp).map f) (hrole : m'.role = m.role)
    (hscope : m'.scope.Has e ↔ m.scope.Has e) (hcap : ∀ d, (f d).roleCap = d.roleCap)
    (hcapScope : ∀ d, (f d).scope.Has e ↔ d.scope.Has e) (role : Role) :
    DeviceReaches (some m') fp role e ↔ DeviceReaches (some m) fp role e := by
  have hiff : ∀ d, ((effectivePermissionOf m' (f d).toDeviceCap).role = role ∧
      (effectivePermissionOf m' (f d).toDeviceCap).scope.Has e) ↔
      (effectivePermissionOf m d.toDeviceCap).role = role ∧ (effectivePermissionOf m d.toDeviceCap).scope.Has e := by
    intro d
    rw [has_effectiveScope, has_effectiveScope, hscope, hcapScope]
    simp only [effectivePermissionOf, permissionUnder, hrole, hcap]
  rw [deviceReaches_some, deviceReaches_some]
  constructor
  · rintro ⟨d', hd', hreach⟩
    rw [hdevices] at hd'
    obtain ⟨d, hd, rfl⟩ := Option.map_eq_some_iff.mp hd'
    exact ⟨d, hd, (hiff d).mp hreach⟩
  · rintro ⟨d, hd, hreach⟩
    exact ⟨f d, by rw [hdevices, hd]; rfl, (hiff d).mpr hreach⟩

section Apply
variable {crypto : Crypto} {s : MutableChainState} {op : ProposableOperation} {u : UserId}
  {fp : KeyFingerprintHex} {m : ChainMember} {d : ChainDevice} {xs : List EnvironmentId} {e : EnvironmentId}

theorem environments_apply_outside (auth : Authorized crypto s op u fp m d) (seq : Nat)
    (hscope : (effectivePermissionOf m d.toDeviceCap).scope = .listed xs) (he : e ∉ xs) :
    (applyOperation crypto op s seq m.userId).environments.get? e = s.environments.get? e := by
  have hout : ∀ id, (actorContextOf m d).permission.scope.Has id → e ≠ id := by
    rintro id hid rfl
    rw [actorContextOf, hscope, has_listed] at hid
    exact he hid
  rw [get?_environments_applyOperation]
  cases op with
  | createEnvironment p => exact if_neg (hout _ (createEnvironmentReason_eq_none auth.rules).2)
  | deleteEnvironment p => exact if_neg (hout _ (deleteEnvironmentReason_eq_none auth.rules).2)
  | rotateEpoch p =>
    obtain ⟨environment, henv⟩ := rotateEpochReason_eq_none auth.rules
    exact if_neg (hout _ henv.inScope)
  | _ => rfl

theorem checkpoints_apply_outside (auth : Authorized crypto s op u fp m d) (seq : Nat)
    (hscope : (effectivePermissionOf m d.toDeviceCap).scope = .listed xs) (he : e ∉ xs) :
    (applyOperation crypto op s seq m.userId).checkpoints.get? e = s.checkpoints.get? e := by
  have hout : ∀ id, (actorContextOf m d).permission.scope.Has id → e ≠ id := by
    rintro id hid rfl
    rw [actorContextOf, hscope, has_listed] at hid
    exact he hid
  rw [get?_checkpoints_applyOperation crypto op s auth.exists_environment]
  cases op with
  | deleteEnvironment p => exact if_neg (hout _ (deleteEnvironmentReason_eq_none auth.rules).2)
  | checkpoint p =>
    have hnone : p.environments.reverse.find? (fun tuple => tuple.environmentId = e) = none := by
      rw [List.find?_eq_none]
      intro tuple ht
      have htuple := checkpointReason_eq_none auth.rules tuple (List.mem_reverse.mp ht)
      simpa using (hout _ htuple.inScope).symm
    simp only [checkpointAfter, hnone]
    rfl
  | _ => rfl

/-- The applied operation revokes devices of the acting person. -/
def RevokesOwn (op : ProposableOperation) (userId : UserId) (t : UserId × KeyFingerprintHex × Role) : Prop :=
  ∃ p, op = .revokeDevice p ∧ p.targetUserId = userId ∧ t.1 = userId ∧ t.2.1 ∈ p.deviceFingerprintsHex

/-- Operation by operation: who reaches an environment outside the actor's scope. -/
theorem access_apply_outside (hk : WellKeyed crypto s) (auth : Authorized crypto s op u fp m d) (seq : Nat)
    (hfresh : ∀ p, op = .addDevice p → currentDevice s (u, userFingerprintHex crypto p.encPubHex p.sigPubHex) = none)
    (hscope : (effectivePermissionOf m d.toDeviceCap).scope = .listed xs) (he : e ∉ xs)
    (t : UserId × KeyFingerprintHex × Role) :
    t ∈ accessTo (applyOperation crypto op s seq m.userId) e ↔ t ∈ accessTo s e ∧ ¬ RevokesOwn op m.userId t := by
  obtain ⟨v, f, role⟩ := t
  have hu := auth.userId_eq hk
  obtain ⟨hactor, hdev⟩ := deviceOf_eq_some.mp auth.device
  have hcontained : ∀ {changed}, scopeContainsEnvironmentSet (actorContextOf m d).permission.scope changed = true →
      scopeContainsEnvironmentSet (.listed xs) changed = true := by
    intro changed h
    rwa [actorContextOf, hscope] at h
  have hlisted : ∀ {scope : MemberScope},
      scopeContainsEnvironmentSet (actorContextOf m d).permission.scope (scopeAsEnvironmentSet scope) = true →
      ¬ scope.Has e := by
    intro scope h hhas
    obtain ⟨as, rfl, hsub⟩ := scopeContains_scope (hcontained h)
    exact he (hsub e ((has_listed _ _).mp hhas))
  have hkeep : (∀ p, op ≠ .revokeDevice p) →
      (DeviceReaches ((applyOperation crypto op s seq m.userId).members.get? v) f role e ↔
        DeviceReaches (s.members.get? v) f role e) →
      ((v, f, role) ∈ accessTo (applyOperation crypto op s seq m.userId) e ↔
        (v, f, role) ∈ accessTo s e ∧ ¬ RevokesOwn op m.userId (v, f, role)) := by
    intro hop hiff
    have hnot : ¬ RevokesOwn op m.userId (v, f, role) := fun ⟨p, h, _⟩ => hop p h
    simp only [mem_accessTo, hiff, hnot, not_false_eq_true, and_true]
  have hafter := get?_members_applyOperation hk op auth.exists_environment seq m.userId v
  cases op with
  | addMember p =>
    refine hkeep (by simp) ?_
    have hok := addMemberReason_eq_none auth.rules
    rw [hafter, memberAfter]
    split_ifs with hv
    · rw [hv, hok.fresh]
      refine iff_of_false (not_deviceReaches fun x hx => ?_) (not_deviceReaches fun x hx => nomatch hx)
      cases hx
      exact hlisted hok.scope.contained
    · rfl
  | changeRole p =>
    refine hkeep (by simp) ?_
    obtain ⟨target, hok⟩ := changeRoleReason_eq_none auth.rules
    rw [hafter, memberAfter]
    split_ifs with hv
    · rw [hv, hok.resolved.member, Option.map_some]
      have hset := hcontained hok.scope.contained
      simp only [permissionChangeChangeRole, Option.map_some, Option.getD_some, Option.some.injEq] at hset
      split_ifs at hset with hrole
      · exact deviceReaches_congr _ _ id (Option.map_id'.symm ▸ rfl) hrole.symm
          (scopeContains_symmetricDifference hset he).symm (fun _ => rfl) (fun _ => Iff.rfl) role
      · obtain ⟨⟨as, has, hsub⟩, bs, hbs, hsub'⟩ := scopeContains_union hset
        refine iff_of_false (not_deviceReaches fun x hx => ?_) (not_deviceReaches fun x hx => ?_)
        · cases hx
          intro hhas
          rw [changedMember, hbs, has_listed] at hhas
          exact he (hsub' e hhas)
        · cases hx
          rw [has, has_listed]
          exact fun hmem => he (hsub e hmem)
    · rfl
  | removeMember p =>
    refine hkeep (by simp) ?_
    obtain ⟨target, hok⟩ := removeMemberReason_eq_none auth.rules
    rw [hafter, memberAfter]
    split_ifs with hv
    · rw [hv, hok.resolved.member]
      refine iff_of_false (not_deviceReaches fun x hx => nomatch hx) (not_deviceReaches fun x hx => ?_)
      cases hx
      exact hlisted hok.contained
    · rfl
  | deleteEnvironment p =>
    refine hkeep (by simp) ?_
    have hne : e ≠ p.environmentId := by
      rintro rfl
      have hin := (deleteEnvironmentReason_eq_none auth.rules).2
      rw [actorContextOf, hscope, has_listed] at hin
      exact he hin
    rw [hafter, memberAfter]
    cases s.members.get? v with
    | none => rfl
    | some x =>
      exact deviceReaches_congr x (pruneMember p.environmentId x) (pruneDevice p.environmentId) (OrderedMap.get?_mapValues _ _ _) rfl
        (has_scopeWithout_ne x.scope hne) (fun _ => rfl) (fun y => has_scopeWithout_ne y.scope hne) role
  | addDevice p =>
    refine hkeep (by simp) ?_
    have hok := addDeviceReason_eq_none auth.rules
    rw [hafter, memberAfter]
    split_ifs with hv
    · rw [hv, hu, hactor, Option.map_some]
      by_cases hf : f = userFingerprintHex crypto p.encPubHex p.sigPubHex
      · -- The new device reaches no more than the one that added it.
        refine iff_of_false ?_ ?_
        · rintro ⟨x, y, hx, hy, -, hreach⟩
          cases hx
          rw [hf, show userFingerprintHex crypto p.encPubHex p.sigPubHex =
            (addedDevice crypto p seq).keyFingerprintHex from rfl, memberWithDevice, OrderedMap.get?_set_self] at hy
          cases hy
          obtain ⟨hperson, hcap⟩ := (has_effectiveScope _ _ e).mp hreach
          have hwithin := ((capWithinCap_iff _ _).mp hok.cap).2
          have hin := (has_effectiveScope m d.toDeviceCap e).mpr ⟨hperson, within_has hwithin hcap⟩
          rw [hscope, has_listed] at hin
          exact he hin
        · rintro ⟨x, y, hx, hy, -⟩
          cases hx
          have hnone := hfresh p rfl
          rw [← hf, currentDevice, hactor] at hnone
          rw [Option.bind_some, hy] at hnone
          cases hnone
      · refine deviceReaches_congr m (memberWithDevice _ m) id ?_ rfl Iff.rfl (fun _ => rfl) (fun _ => Iff.rfl) role
        rw [Option.map_id]
        exact OrderedMap.get?_set_ne _ _ hf
    · rfl
  | revokeDevice p =>
    obtain ⟨target, hok⟩ := revokeDeviceReason_eq_none auth.rules
    have htarget := hk.member _ _ hok.member
    simp only [mem_accessTo, hafter, memberAfter]
    split_ifs with hv
    · rw [hv, hok.member, Option.map_some]
      by_cases hself : target.userId = m.userId
      · have hown : RevokesOwn (.revokeDevice p) m.userId (p.targetUserId, f, role) ↔ f ∈ p.deviceFingerprintsHex := by
          constructor
          · rintro ⟨q, hq, -, -, hmem⟩; cases hq; exact hmem
          · exact fun hmem => ⟨p, rfl, htarget ▸ hself, htarget ▸ hself, hmem⟩
        rw [hown]
        by_cases hf : f ∈ p.deviceFingerprintsHex
        · refine iff_of_false ?_ (fun h => h.2 hf)
          rintro ⟨x, y, hx, hy, -⟩
          cases hx
          rw [memberWithoutDevices, OrderedMap.get?_without, if_pos hf] at hy
          cases hy
        · rw [and_iff_left hf]
          refine deviceReaches_congr target (memberWithoutDevices _ target) id ?_ rfl Iff.rfl (fun _ => rfl)
            (fun _ => Iff.rfl) role
          rw [memberWithoutDevices, OrderedMap.get?_without, if_neg hf, Option.map_id]
          rfl
      · have hout := hlisted (hok.others hself).2.2
        refine iff_of_false (not_deviceReaches fun x hx => ?_) (fun h => not_deviceReaches (fun x hx => ?_) h.1)
        · cases hx; exact hout
        · cases hx; exact hout
    · have hnot : ¬ RevokesOwn (.revokeDevice p) m.userId (v, f, role) := by
        rintro ⟨q, hq, htgt, hmine, -⟩
        cases hq
        exact hv (hmine.trans htgt.symm)
      rw [and_iff_left hnot]
  | _ => exact hkeep (by simp) (by rw [hafter]; rfl)

end Apply

theorem authorizingDevice_eq {s : MutableChainState} {entry : ChainEntry} {op : ProposableOperation} {u : UserId}
    {fp : KeyFingerprintHex} (h : AppliedBy s entry op u fp) (applied : AppliedOperation) :
    authorizingDevice s entry (some applied) = deviceOf s.members u fp := by
  unfold authorizingDevice
  cases h with
  | entry hop hgenesis huser hfp htarget => rw [hop, huser, hfp]
  | approve href pending hop hpending hinner huser hfp htarget => rw [hop, huser, hfp]; simp [hpending]

/-- For an environment outside the authorizing device's listed scope, an accepted entry changes neither
its chain state nor who reaches it, except for the devices of the acting person that it revokes. -/
theorem environment_isolation (crypto : Crypto) (entries : List Json) (st : ChainState)
    (h : verifyChain crypto entries = .ok st) (hdistinct : FingerprintsDistinct crypto entries) :
    ∀ n < entries.length, ∃ s entry hash s' applied, EntryAt crypto entries n s entry hash s' applied ∧
      ∀ m d xs, authorizingDevice s entry applied = some (m, d) →
        (effectivePermissionOf m d.toDeviceCap).scope = .listed xs → ∀ e, e ∉ xs →
          s'.environments.get? e = s.environments.get? e ∧ s'.checkpoints.get? e = s.checkpoints.get? e ∧
          accessTo s' e ⊆ accessTo s e ∧
          ∀ t ∈ accessTo s e, t ∉ accessTo s' e → ∃ op, applied = some op ∧ RevokesOwn op.operation m.userId t := by
  intro n hn
  obtain ⟨s, entry, hash, s', applied, hat⟩ := entryAt_of_verifyChain h hn
  refine ⟨s, entry, hash, s', applied, hat, fun m d xs hdev hscope e he => ?_⟩
  obtain ⟨loop, hrun, hloop⟩ := stateAfter_eq_some.mp hat.before
  have hkeys := hloop ▸ runs_keysUnique hrun (List.take_prefix n entries) hdistinct
  have hk := hat.keyed
  cases hat.outcome with
  | genesis p hop hs hn hmem hfp =>
    have hnone : authorizingDevice s entry (some { operation := .genesis p, actorUserId := entry.actor.userId }) =
        deviceOf s.members entry.actor.userId entry.actor.keyFingerprintHex := by
      unfold authorizingDevice
      rw [hop]
    rw [hnone, hs] at hdev
    cases hdev
  | waits pending x y hactor => exact ⟨rfl, rfl, fun _ ht => ht, fun t ht hnot => absurd ht hnot⟩
  | applies op u fp x y pending hmem auth happlied =>
    rw [authorizingDevice_eq happlied, auth.device] at hdev
    cases hdev
    have hfresh : ∀ p, op = .addDevice p →
        currentDevice s (u, userFingerprintHex crypto p.encPubHex p.sigPubHex) = none := by
      rintro p rfl
      exact currentDevice_fresh hk hkeys hdistinct (addDeviceReason_eq_none auth.rules).keys
        (mem_registeredKeys hmem rfl) u
    have haccess := access_apply_outside hk auth (n + 1) hfresh hscope he
    refine ⟨environments_apply_outside auth _ hscope he, checkpoints_apply_outside auth _ hscope he,
      fun t ht => ((haccess t).mp ht).1, fun t ht hnot => ⟨_, rfl, ?_⟩⟩
    by_contra hown
    exact hnot ((haccess t).mpr ⟨ht, hown⟩)

/-- The last entry is signed by a device that reaches `prod` alone. -/
theorem environment_isolation_example : ∃ s entry hash s' applied,
    EntryAt exampleCrypto exampleChain 7 s entry hash s' applied ∧
      ∀ m d xs, authorizingDevice s entry applied = some (m, d) →
        (effectivePermissionOf m d.toDeviceCap).scope = .listed xs → ∀ e, e ∉ xs → accessTo s' e ⊆ accessTo s e := by
  obtain ⟨st, h⟩ := exampleChain_verified
  obtain ⟨s, entry, hash, s', applied, hat, hkept⟩ :=
    environment_isolation _ _ st h exampleChain_distinct 7 (by decide)
  exact ⟨s, entry, hash, s', applied, hat, fun m d xs hdev hscope e he => (hkept m d xs hdev hscope e he).2.2.1⟩

end Maruhi.Chain
