import Maruhi.Proposals.Programs

/-!
# The recipients of a proposal

A wrap set matches when it is W(E): one wrap per device, and no other.
-/

open Text

namespace Maruhi.Proposals
open Chain Checkpoint

/-! ## Keys of devices -/

section
variable {crypto : Crypto}

theorem VerifiedChain.keysUnique (chain : VerifiedChain crypto) :
    KeysUnique (registeredKeys chain.entries) chain.state := by
  have h := chain.derived
  obtain ⟨loop, hrun, hstate⟩ := stateAfter_eq_some.mp h
  rw [← hstate]
  exact runs_keysUnique hrun List.prefix_rfl chain.distinct

theorem registered_length {entries : List Json} {k : JsString × JsString} (h : k ∈ registeredKeys entries) :
    k.1.length = 64 := by
  obtain ⟨op, hop, hk⟩ := List.mem_filterMap.mp h
  have hshaped := operationsIn_shaped op hop
  have hkeys : KeysShaped k.1 k.2 := by
    cases op with
    | genesis p => cases hk; exact hshaped
    | addMember p => cases hk; exact hshaped.2.1
    | addDevice p => cases hk; exact hshaped.1
    | _ => cases hk
  have hhex := hkeys.1
  simp only [isHexText, Bool.and_eq_true, decide_eq_true_eq] at hhex
  exact hhex.1

theorem mem_memberDevicesInOrder {members : OrderedMap UserId ChainMember} {r : ChainMember × ChainDevice} :
    r ∈ memberDevicesInOrder members ↔ r.1 ∈ members.values ∧ r.2 ∈ r.1.devices.values := by
  unfold memberDevicesInOrder
  simp only [List.mem_flatMap, List.mem_map, (List.perm_insertionSort _ _).mem_iff]
  constructor
  · rintro ⟨member, hmember, device, hdevice, rfl⟩
    exact ⟨hmember, hdevice⟩
  · rintro ⟨hmember, hdevice⟩
    exact ⟨r.1, hmember, r.2, hdevice, rfl⟩

theorem place_of_device {s : MutableChainState} (hkeyed : WellKeyed crypto s) {r : ChainMember × ChainDevice}
    (h : r ∈ memberDevicesInOrder s.members) :
    s.members.get? r.1.userId = some r.1 ∧ r.1.devices.get? r.2.keyFingerprintHex = some r.2 ∧
      currentDevice s (r.1.userId, r.2.keyFingerprintHex) = some r.2 := by
  obtain ⟨hmember, hdevice⟩ := mem_memberDevicesInOrder.mp h
  obtain ⟨u, hu⟩ := (OrderedMap.mem_values _ _).mp hmember
  obtain ⟨fp, hfp⟩ := (OrderedMap.mem_values _ _).mp hdevice
  have huser := hkeyed.member u r.1 hu
  have hfingerprint := (hkeyed.device u r.1 fp r.2 hu hfp).1
  rw [huser, hfingerprint]
  refine ⟨hu, hfp, ?_⟩
  unfold currentDevice
  rw [hu, Option.bind_some, hfp]

theorem values_nodup {α β : Type} [DecidableEq α] (m : OrderedMap α β) (key : β → α)
    (hkey : ∀ k v, m.get? k = some v → key v = k) : m.values.Nodup := by
  refine List.Nodup.of_map key ?_
  have hmap : m.values.map key = m.keys := by
    unfold OrderedMap.values OrderedMap.keys
    rw [List.map_map]
    refine List.map_congr_left fun e he => hkey e.1 e.2 ?_
    exact (OrderedMap.mem_entries _ _ _).mp he
  rw [hmap]
  exact m.keys_nodup

theorem devices_nodup {s : MutableChainState} (hkeyed : WellKeyed crypto s)
    (hunique : ∀ place place' d d', currentDevice s place = some d → currentDevice s place' = some d' →
      d.encPubHex = d'.encPubHex → place = place') :
    ((memberDevicesInOrder s.members).map fun r => r.2.encPubHex).Nodup := by
  have hplace : ∀ r ∈ memberDevicesInOrder s.members, ∀ r' ∈ memberDevicesInOrder s.members,
      r.2.encPubHex = r'.2.encPubHex → r = r' := by
    intro r hr r' hr' henc
    obtain ⟨hmember, hdevice, hcurrent⟩ := place_of_device hkeyed hr
    obtain ⟨hmember', hdevice', hcurrent'⟩ := place_of_device hkeyed hr'
    have hsame := hunique _ _ _ _ hcurrent hcurrent' henc
    rw [Prod.mk.injEq] at hsame
    rw [hsame.1, hmember', Option.some.injEq] at hmember
    rw [← hmember, hsame.2, hdevice', Option.some.injEq] at hdevice
    exact Prod.ext hmember.symm hdevice.symm
  refine (List.nodup_map_iff_inj_on ?_).mpr hplace
  unfold memberDevicesInOrder
  rw [List.nodup_flatMap]
  have hmembers : (s.members.values.insertionSort fun a b => a.userId ≤ b.userId).Nodup :=
    (List.perm_insertionSort _ _).nodup_iff.mpr (values_nodup _ ChainMember.userId hkeyed.member)
  refine ⟨fun member hmember => ?_, hmembers.imp fun {member member'} hne => ?_⟩
  · rw [(List.perm_insertionSort _ _).mem_iff] at hmember
    obtain ⟨u, hu⟩ := (OrderedMap.mem_values _ _).mp hmember
    refine List.Nodup.map (fun d d' h => (Prod.ext_iff.mp h).2) ?_
    refine (List.perm_insertionSort _ _).nodup_iff.mpr (values_nodup _ ChainDevice.keyFingerprintHex fun fp d hd => ?_)
    exact (hkeyed.device u member fp d hu hd).1
  · intro r hr hr'
    obtain ⟨d, -, rfl⟩ := List.mem_map.mp hr
    obtain ⟨d', -, heq⟩ := List.mem_map.mp hr'
    exact hne (Prod.ext_iff.mp heq).1.symm

theorem place_of_recipient {chain : VerifiedChain crypto} {r : ChainMember × ChainDevice}
    (h : r ∈ memberDevicesInOrder chain.state.members) :
    chain.state.members.get? r.1.userId = some r.1 ∧ r.1.devices.get? r.2.keyFingerprintHex = some r.2 ∧
      currentDevice chain.state (r.1.userId, r.2.keyFingerprintHex) = some r.2 :=
  place_of_device (wellKeyed_of_stateAfter chain.derived) h

theorem recipients_nodup (chain : VerifiedChain crypto) :
    ((memberDevicesInOrder chain.state.members).map fun r => r.2.encPubHex).Nodup :=
  devices_nodup (wellKeyed_of_stateAfter chain.derived) chain.keysUnique.enc.unique

end

/-! ## Matching -/

theorem recipientKey_inj {u u' : UserId} {enc enc' : JsString} (hlength : enc.length = enc'.length)
    (h : recipientKey u enc = recipientKey u' enc') : u = u' ∧ enc = enc' := by
  unfold recipientKey at h
  obtain ⟨huser, hrest⟩ := List.append_inj' h (by simp [hlength])
  exact ⟨huser, (List.cons.inj hrest).2⟩

theorem setOf_size {α : Type} [DecidableEq α] {l : List α} (h : l.Nodup) : (OrderedMap.setOf l).size = l.length := by
  rw [← OrderedMap.length_keys]
  exact ((List.perm_ext_iff_of_nodup (OrderedMap.keys_nodup _) h).mpr (OrderedMap.mem_keys_setOf l)).length_eq

theorem foldlM_seeRecipient {expected seen seen' : OrderedMap JsString Unit} {keys : List JsString}
    (h : keys.foldlM (seeRecipient expected) seen = some seen') :
    (∀ key ∈ keys, expected.has key = true) ∧ seen'.keys = seen.keys ++ keys := by
  induction keys generalizing seen with
  | nil =>
    cases h
    simp
  | cons key rest ih =>
    rw [List.foldlM_cons] at h
    obtain ⟨mid, hmid, h⟩ := Option.bind_eq_some_iff.mp h
    unfold seeRecipient at hmid
    split_ifs at hmid with hrefused
    cases hmid
    simp only [Bool.or_eq_true, Bool.not_eq_true', not_or, Bool.not_eq_false, Bool.not_eq_true] at hrefused
    obtain ⟨hrest, hkeys⟩ := ih h
    rw [OrderedMap.keys_set_of_get?_none _ ((OrderedMap.has_eq_false_iff _ _).mp hrefused.2)] at hkeys
    exact ⟨List.forall_mem_cons.mpr ⟨hrefused.1, hrest⟩, by rw [hkeys, List.append_assoc, List.singleton_append]⟩

theorem recipientsMatch_perm {keys : List JsString} {wraps : List (UserId × JsString)} (hkeys : keys.Nodup)
    (h : recipientsMatch (.setOf keys) wraps = true) :
    (wraps.map fun wrap => recipientKey wrap.1 wrap.2).Perm keys := by
  unfold recipientsMatch at h
  cases hseen : (wraps.map fun wrap => recipientKey wrap.1 wrap.2).foldlM (seeRecipient (.setOf keys)) .empty with
  | none => rw [hseen] at h; cases h
  | some seen =>
    rw [hseen] at h
    obtain ⟨hexpected, hlisted⟩ := foldlM_seeRecipient hseen
    have hnil : (OrderedMap.empty : OrderedMap JsString Unit).keys = [] := rfl
    rw [hnil, List.nil_append] at hlisted
    have hsize : seen.size = keys.length := (of_decide_eq_true h).trans (setOf_size hkeys)
    rw [← hlisted]
    refine (List.subperm_of_subset seen.keys_nodup fun key hkey => ?_).perm_of_length_le ?_
    · rw [hlisted] at hkey
      obtain ⟨v, hv⟩ := (OrderedMap.has_iff _ _).mp (hexpected key hkey)
      exact (OrderedMap.mem_keys_setOf keys key).mp ((OrderedMap.mem_keys _ _).mpr ⟨v, hv⟩)
    · rw [OrderedMap.length_keys, hsize]

section
variable {crypto : Crypto}

/-- W(E), each device by its member and its encryption key. -/
def recipientsOf (state : MutableChainState) (environmentId : EnvironmentId) : List (UserId × JsString) :=
  (proposalRecipientsOf state environmentId).map fun r => (r.1.userId, r.2.encPubHex)

theorem recipientsOf_nodup (chain : VerifiedChain crypto) (environmentId : EnvironmentId) :
    (recipientsOf chain.state environmentId).Nodup := by
  have hall := recipients_nodup chain
  have hsub := (List.filter_sublist (l := memberDevicesInOrder chain.state.members) (p := fun r =>
    let effective := effectivePermissionOf r.1 r.2.toDeviceCap
    roleRank .member ≤ roleRank effective.role && scopeIncludesEnvironment effective.scope environmentId)).map
      fun r => r.2.encPubHex
  refine List.Nodup.of_map Prod.snd ?_
  unfold recipientsOf proposalRecipientsOf
  rw [List.map_map]
  exact hall.sublist hsub

theorem recipientsOf_length (chain : VerifiedChain crypto) (environmentId : EnvironmentId) :
    ∀ r ∈ recipientsOf chain.state environmentId, r.2.length = 64 := by
  intro r hr
  obtain ⟨recipient, hrecipient, rfl⟩ := List.mem_map.mp hr
  obtain ⟨-, -, hcurrent⟩ := place_of_recipient (List.mem_of_mem_filter hrecipient)
  exact registered_length (chain.keysUnique.registered _ _ hcurrent)

theorem recipients_exact (chain : VerifiedChain crypto) (environmentId : EnvironmentId) {wraps : List (UserId × JsString)}
    (hwraps : ∀ wrap ∈ wraps, wrap.2.length = 64)
    (h : recipientsMatch (proposalRecipientKeys chain.state environmentId) wraps = true) :
    wraps.Perm (recipientsOf chain.state environmentId) := by
  have hnodup := recipientsOf_nodup chain environmentId
  have hlength := recipientsOf_length chain environmentId
  let key : UserId × JsString → JsString := fun r => recipientKey r.1 r.2
  have hinj : ∀ a ∈ recipientsOf chain.state environmentId, ∀ b ∈ recipientsOf chain.state environmentId,
      key a = key b → a = b := by
    intro a ha b hb hab
    exact Prod.ext_iff.mpr (recipientKey_inj ((hlength a ha).trans (hlength b hb).symm) hab)
  have hkeys : ((recipientsOf chain.state environmentId).map key).Nodup := (List.nodup_map_iff_inj_on hnodup).mpr hinj
  have hexpected : proposalRecipientKeys chain.state environmentId =
      .setOf ((recipientsOf chain.state environmentId).map key) := by
    unfold proposalRecipientKeys recipientsOf
    rw [List.map_map]
    rfl
  rw [hexpected] at h
  have hperm := recipientsMatch_perm hkeys h
  have hwrapsNodup : wraps.Nodup := List.Nodup.of_map key (hperm.nodup_iff.mpr hkeys)
  rw [List.perm_ext_iff_of_nodup hwrapsNodup hnodup]
  intro r
  constructor
  · intro hr
    obtain ⟨r', hr', heq⟩ := List.mem_map.mp (hperm.mem_iff.mp (List.mem_map_of_mem (f := key) hr))
    have := recipientKey_inj ((hlength r' hr').trans (hwraps r hr).symm) heq
    rwa [← Prod.ext_iff.mpr this]
  · intro hr
    obtain ⟨r', hr', heq⟩ := List.mem_map.mp (hperm.mem_iff.mpr (List.mem_map_of_mem (f := key) hr))
    have := recipientKey_inj ((hwraps r' hr').trans (hlength r hr).symm) heq
    rwa [← Prod.ext_iff.mpr this]

end

end Maruhi.Proposals
