import Maruhi.Lib.SortedValues
import Maruhi.Wraps.Accept

/-!
# R(E) and W(E) (`recipient-set.ts`)

What the two lists hold, that no key comes twice, and that the order of the maps plays no part.
-/

namespace Maruhi.Wraps
open Chain Proposals

/-! ## Maps with the same contents -/

/-- The same member, the order of the devices aside. -/
structure SameMember (m m' : ChainMember) : Prop where
  userId : m.userId = m'.userId
  role : m.role = m'.role
  scope : m.scope = m'.scope
  devices : ∀ fp, m.devices.get? fp = m'.devices.get? fp

/-- The same maps of members, devices and grants, their order aside. -/
structure SameContents (s s' : MutableChainState) : Prop where
  members : ∀ u, Option.Rel SameMember (s.members.get? u) (s'.members.get? u)
  grants : ∀ fp, s.serverGrants.get? fp = s'.serverGrants.get? fp

inductive SameRecipient : WrapRecipient → WrapRecipient → Prop
  | member {m m' : ChainMember} (h : SameMember m m') (device : ChainDevice) :
    SameRecipient (.member m device) (.member m' device)
  | server (grant : ServerGrant) : SameRecipient (.server grant) (.server grant)

section Order
variable {crypto : Crypto} {s s' : MutableChainState}

theorem SameContents.member_of_right (h : SameContents s s') {u : UserId} {m' : ChainMember}
    (hm : s'.members.get? u = some m') : ∃ m, s.members.get? u = some m ∧ SameMember m m' := by
  have hrel := h.members u
  rw [hm] at hrel
  cases hold : s.members.get? u with
  | none => rw [hold] at hrel; cases hrel
  | some m =>
    rw [hold] at hrel
    cases hrel with
    | some hsame => exact ⟨m, rfl, hsame⟩

theorem sortedDevices_eq {m m' : ChainMember} (hsame : SameMember m m')
    (hkeyed : ∀ fp d, m.devices.get? fp = some d → d.keyFingerprintHex = fp) :
    (m.devices.values.insertionSort fun a b => a.keyFingerprintHex ≤ b.keyFingerprintHex) =
      m'.devices.values.insertionSort fun a b => a.keyFingerprintHex ≤ b.keyFingerprintHex := by
  have hrel := OrderedMap.sortedValues_rel m.devices m'.devices ChainDevice.keyFingerprintHex ChainDevice.keyFingerprintHex
    Eq (fun _ => true) (fun _ => true) hkeyed (fun fp d hd => hkeyed fp d ((hsame.devices fp).trans hd))
    (fun fp => by rw [hsame.devices fp]; cases m'.devices.get? fp <;> constructor; rfl) fun _ _ _ => rfl
  rw [List.filter_true, List.filter_true, List.forall₂_eq_eq_eq] at hrel
  exact hrel

theorem memberDevices_rel (hkeyed : WellKeyed crypto s) (h : SameContents s s') :
    List.Forall₂ (fun r r' => SameMember r.1 r'.1 ∧ r.2 = r'.2) (memberDevicesInOrder s.members)
      (memberDevicesInOrder s'.members) := by
  let R : ChainMember → ChainMember → Prop := fun m m' =>
    SameMember m m' ∧ ∀ fp d, m.devices.get? fp = some d → d.keyFingerprintHex = fp
  have hmembers := OrderedMap.sortedValues_rel s.members s'.members ChainMember.userId ChainMember.userId R
    (fun _ => true) (fun _ => true) hkeyed.member (fun u m' hm => by
      obtain ⟨m, hold, hsame⟩ := h.member_of_right hm
      rw [← hsame.userId]
      exact hkeyed.member u m hold) (fun u => by
      have hrel := h.members u
      cases hold : s.members.get? u with
      | none =>
        rw [hold] at hrel
        generalize s'.members.get? u = other at hrel
        cases hrel
        exact .none
      | some m =>
        rw [hold] at hrel
        generalize s'.members.get? u = other at hrel
        cases hrel with
        | some hsame => exact .some ⟨hsame, fun fp d hd => (hkeyed.device u m fp d hold hd).1⟩) fun _ _ _ => rfl
  rw [List.filter_true, List.filter_true] at hmembers
  refine List.rel_flatMap hmembers fun m m' ⟨hsame, hdevices⟩ => ?_
  rw [sortedDevices_eq hsame hdevices]
  refine List.rel_map (R := Eq) ?_ (List.forall₂_eq_eq_eq ▸ rfl)
  rintro d _ rfl
  exact ⟨hsame, rfl⟩

theorem receives_congr {m m' : ChainMember} (h : SameMember m m') (device : ChainDevice) (e : EnvironmentId) :
    deviceReceivesEnvironment m device e = deviceReceivesEnvironment m' device e := by
  unfold deviceReceivesEnvironment effectivePermissionOf
  rw [h.role, h.scope]

theorem wrapRecipientsOf_rel (hkeyed : WellKeyed crypto s) (h : SameContents s s') (e : EnvironmentId) :
    List.Forall₂ SameRecipient (wrapRecipientsOf s e) (wrapRecipientsOf s' e) := by
  refine List.rel_append ?_ ?_
  · refine List.rel_map (R := fun r r' : ChainMember × ChainDevice => SameMember r.1 r'.1 ∧ r.2 = r'.2) ?_
      (List.rel_filter ?_ (memberDevices_rel hkeyed h))
    · rintro ⟨m, d⟩ ⟨m', _⟩ ⟨hsame, rfl⟩
      exact .member hsame d
    · rintro ⟨m, d⟩ ⟨m', _⟩ ⟨hsame, rfl⟩
      exact iff_of_eq (congrArg (· = true) (receives_congr hsame d e))
  · have hgrants := OrderedMap.sortedValues_rel s.serverGrants s'.serverGrants ServerGrant.serverKeyFingerprintHex
      ServerGrant.serverKeyFingerprintHex Eq (fun grant => grant.scopeEnvironmentIds.contains e)
      (fun grant => grant.scopeEnvironmentIds.contains e) hkeyed.grant
      (fun fp g hg => hkeyed.grant fp g ((h.grants fp).trans hg))
      (fun fp => by rw [h.grants fp]; cases s'.serverGrants.get? fp <;> constructor; rfl)
      fun _ _ heq => by rw [heq]
    refine List.rel_map (R := Eq) ?_ hgrants
    rintro grant _ rfl
    exact .server grant

end Order

/-! ## What the lists hold -/

section Contents
variable {crypto : Crypto} {state : MutableChainState}

theorem deviceReceivesEnvironment_iff (person : ChainMember) (device : ChainDevice) (e : EnvironmentId) :
    deviceReceivesEnvironment person device e = true ↔ person.scope.Has e ∧ device.scope.Has e :=
  has_intersectScopes person.scope device.scope e

/-- R(E): each device both scopes of which hold E, and each grant that names E. -/
theorem mem_wrapRecipientsOf_iff (hkeyed : WellKeyed crypto state) (e : EnvironmentId) (r : WrapRecipient) :
    r ∈ wrapRecipientsOf state e ↔
      (∃ u member fp device, state.members.get? u = some member ∧ member.devices.get? fp = some device ∧
        member.scope.Has e ∧ device.scope.Has e ∧ r = .member member device) ∨
      ∃ fp grant, state.serverGrants.get? fp = some grant ∧ e ∈ grant.scopeEnvironmentIds ∧ r = .server grant := by
  rw [mem_wrapRecipientsOf]
  refine or_congr ⟨?_, ?_⟩ ⟨?_, ?_⟩
  · rintro ⟨member, device, rfl, hmem, hreceives⟩
    obtain ⟨hmember, hdevice, -⟩ := place_of_device hkeyed hmem
    obtain ⟨hperson, hcap⟩ := (deviceReceivesEnvironment_iff member device e).mp hreceives
    exact ⟨_, member, _, device, hmember, hdevice, hperson, hcap, rfl⟩
  · rintro ⟨u, member, fp, device, hmember, hdevice, hperson, hcap, rfl⟩
    refine ⟨member, device, rfl, ?_, (deviceReceivesEnvironment_iff member device e).mpr ⟨hperson, hcap⟩⟩
    exact mem_memberDevicesInOrder.mpr ⟨(OrderedMap.mem_values _ _).mpr ⟨u, hmember⟩,
      (OrderedMap.mem_values _ _).mpr ⟨fp, hdevice⟩⟩
  · rintro ⟨grant, rfl, hgrant, hscope⟩
    obtain ⟨fp, hfp⟩ := (OrderedMap.mem_values _ _).mp hgrant
    exact ⟨fp, grant, hfp, List.contains_iff_mem.mp hscope, rfl⟩
  · rintro ⟨fp, grant, hfp, hscope, rfl⟩
    exact ⟨grant, rfl, (OrderedMap.mem_values _ _).mpr ⟨fp, hfp⟩, List.contains_iff_mem.mpr hscope⟩

/-- Of a recipient: a member's device whose effective role is member or above. -/
def WrapRecipient.writes : WrapRecipient → Bool
  | member m device => roleRank .member ≤ roleRank (effectivePermissionOf m device.toDeviceCap).role
  | server _ => false

/-- W(E) is the part of R(E) that writes. -/
theorem proposalRecipientsOf_eq (state : MutableChainState) (e : EnvironmentId) :
    (proposalRecipientsOf state e).map (fun r => WrapRecipient.member r.1 r.2) =
      (wrapRecipientsOf state e).filter WrapRecipient.writes := by
  unfold wrapRecipientsOf proposalRecipientsOf
  have hserver : ∀ grants : List ServerGrant, (grants.map WrapRecipient.server).filter WrapRecipient.writes = [] := by
    intro grants
    rw [List.filter_eq_nil_iff]
    intro r hr
    obtain ⟨grant, -, rfl⟩ := List.mem_map.mp hr
    exact Bool.false_ne_true
  rw [List.filter_append, hserver, List.append_nil, List.filter_map, List.filter_filter]
  rfl

end Contents

/-! ## Granted keys -/

theorem named_of_applied {crypto : Crypto} {entries : List Json} {state : MutableChainState}
    (h : stateAfter crypto entries = some state) {n : Nat} {s s' : MutableChainState} {entry : ChainEntry} {hash : JsString}
    {applied : AppliedOperation} (hat : EntryAt crypto entries n s entry hash s' (some applied)) {p : GrantServerPayload}
    (hop : applied.operation = .grantServer p) : state.namedServerKeys.has p.serverEncPubHex = true := by
  have hgrant : s'.namedServerKeys.has p.serverEncPubHex = true := by
    have hout := hat.outcome
    cases hout with
    | genesis p' hop' => cases hop
    | applies op u fp m d pending hmem auth =>
      cases hop
      have hset := namedServerKeys_applyOperation crypto (.grantServer p) s (n + 1) m.userId
      exact (congrArg (fun named => named.has p.serverEncPubHex) hset).trans ((OrderedMap.has_set _ _ _ _).mpr (.inl rfl))
  refine entry_induction hat.after (P := fun _ t => t.namedServerKeys.has p.serverEncPubHex = true) hgrant ?_
    hat.lt_length le_rfl (by rwa [List.take_length])
  intro k t entry' hash' t' applied' _ _ hat' hold
  have hout := hat'.outcome
  cases hout with
  | genesis p' hop' hs =>
    rw [hs] at hold
    cases hold
  | waits => exact hold
  | applies op u fp m d pending hmem auth =>
    have hset := namedServerKeys_applyOperation crypto op t (k + 1) m.userId
    refine (congrArg (fun named => named.has p.serverEncPubHex) hset).trans ?_
    cases op with
    | grantServer p' => exact (OrderedMap.has_set _ _ _ _).mpr (.inr hold)
    | _ => exact hold

/-- **R(E) and W(E) are exact.** -/
theorem recipient_sets_exact (crypto : Crypto) (entries : List Json) (state : MutableChainState)
    (h : stateAfter crypto entries = some state) (e : EnvironmentId) :
    (wrapRecipientsOf state e).Nodup ∧
    (∀ r, r ∈ wrapRecipientsOf state e ↔
      (∃ u member fp device, state.members.get? u = some member ∧ member.devices.get? fp = some device ∧
        member.scope.Has e ∧ device.scope.Has e ∧ r = .member member device) ∨
      ∃ fp grant, state.serverGrants.get? fp = some grant ∧ e ∈ grant.scopeEnvironmentIds ∧ r = .server grant) ∧
    ((wrapRecipientsOf state e).map WrapRecipient.encPubHex).Nodup ∧
    (∀ state', SameContents state state' → List.Forall₂ SameRecipient (wrapRecipientsOf state e) (wrapRecipientsOf state' e)) ∧
    (proposalRecipientsOf state e).map (fun r => WrapRecipient.member r.1 r.2) =
      (wrapRecipientsOf state e).filter WrapRecipient.writes ∧
    ∀ n s entry hash s' applied p, EntryAt crypto entries n s entry hash s' (some applied) →
      applied.operation = .grantServer p → ∀ r ∈ proposalRecipientsOf state e, r.2.encPubHex ≠ p.serverEncPubHex := by
  have hkeyed := wellKeyed_of_stateAfter h
  have hheld := keysHeld_of_stateAfter h
  have hkeys := encPubHexes_nodup hkeyed hheld e
  refine ⟨hkeys.of_map, fun r => mem_wrapRecipientsOf_iff hkeyed e r, hkeys, fun state' hsame =>
    wrapRecipientsOf_rel hkeyed hsame e, proposalRecipientsOf_eq state e, ?_⟩
  intro n s entry hash s' applied p hat hop r hr heq
  obtain ⟨-, -, hcurrent⟩ := place_of_device hkeyed (List.mem_of_mem_filter hr)
  have hunnamed := (OrderedMap.has_eq_false_iff _ _).mpr (hheld.unnamed _ _ hcurrent)
  rw [heq, named_of_applied h hat hop] at hunnamed
  cases hunnamed

/-- The example log's environment has its recipients, each once. -/
theorem recipient_sets_exact_example : ∃ state, stateAfter exampleCrypto (exampleChain.take 8) = some state ∧
    ((wrapRecipientsOf state (Text.lit "prod")).map WrapRecipient.encPubHex).Nodup := by
  obtain ⟨st, hverified⟩ := exampleChain_verified
  obtain ⟨state, hstate⟩ := stateAfter_take hverified 8
  exact ⟨state, hstate, (recipient_sets_exact exampleCrypto (exampleChain.take 8) state hstate (Text.lit "prod")).2.2.1⟩

end Maruhi.Wraps
