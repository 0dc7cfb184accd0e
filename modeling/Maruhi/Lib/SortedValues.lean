import Maruhi.Lib.OrderedMap
import Maruhi.Lib.TextOrder
import Mathlib.Data.List.Forall2
import Mathlib.Data.List.Sort

/-!
# The values of a map in the order of their keys

They do not depend on the order the keys were put in: maps that relate at every key give lists that relate.
-/

namespace List
variable {α α' κ : Type} [LinearOrder κ]

theorem insertionSort_map_eq {f : α → κ} {g : α' → κ} {l : List α} {l' : List α'} (h : (l.map f).Perm (l'.map g)) :
    (l.insertionSort fun a b => f a ≤ f b).map f = (l'.insertionSort fun a b => g a ≤ g b).map g := by
  have hsorted : ∀ {γ : Type} (f : γ → κ) (l : List γ), ((l.insertionSort fun a b => f a ≤ f b).map f).Pairwise (· ≤ ·) := by
    intro γ f l
    have : Std.Total fun a b : γ => f a ≤ f b := ⟨fun a b => le_total (f a) (f b)⟩
    have : IsTrans γ fun a b => f a ≤ f b := ⟨fun _ _ _ => le_trans⟩
    rw [List.pairwise_map]
    exact pairwise_insertionSort _ l
  refine Perm.eq_of_pairwise' (hsorted f l) (hsorted g l') ?_
  exact ((perm_insertionSort _ l).map f).trans (h.trans ((perm_insertionSort _ l').map g).symm)

omit [LinearOrder κ] in
theorem forall₂_of_map_eq {f : α → κ} {g : α' → κ} {R : α → α' → Prop} {l : List α} {l' : List α'} (h : l.map f = l'.map g)
    (hR : ∀ a ∈ l, ∀ b ∈ l', f a = g b → R a b) : Forall₂ R l l' := by
  induction l generalizing l' with
  | nil =>
    rw [map_nil, eq_comm, map_eq_nil_iff] at h
    rw [h]
    exact .nil
  | cons a rest ih =>
    cases l' with
    | nil => cases h
    | cons b rest' =>
      obtain ⟨hhead, htail⟩ := cons.inj h
      refine .cons (hR a mem_cons_self b mem_cons_self hhead) (ih htail fun c hc d hd => ?_)
      exact hR c (mem_cons_of_mem _ hc) d (mem_cons_of_mem _ hd)

end List

namespace OrderedMap
variable {κ β β' : Type} [LinearOrder κ] [DecidableEq κ]

omit [LinearOrder κ] in
theorem mem_filter_values {m : OrderedMap κ β} {key : β → κ} (hkey : ∀ k v, m.get? k = some v → key v = k) {p : β → Bool}
    {v : β} : v ∈ m.values.filter p ↔ m.get? (key v) = some v ∧ p v = true := by
  rw [List.mem_filter, mem_values]
  constructor
  · rintro ⟨⟨k, hk⟩, hp⟩
    exact ⟨(hkey k v hk).symm ▸ hk, hp⟩
  · rintro ⟨hv, hp⟩
    exact ⟨⟨_, hv⟩, hp⟩

omit [LinearOrder κ] in
theorem filter_values_keys_nodup {m : OrderedMap κ β} {key : β → κ} (hkey : ∀ k v, m.get? k = some v → key v = k)
    (p : β → Bool) : ((m.values.filter p).map key).Nodup := by
  have hkeys : m.values.map key = m.keys := by
    unfold values keys
    rw [List.map_map]
    exact List.map_congr_left fun e he => hkey e.1 e.2 ((mem_entries _ _ _).mp he)
  exact (hkeys ▸ m.keys_nodup).sublist (List.filter_sublist.map key)

theorem sortedValues_rel (m : OrderedMap κ β) (m' : OrderedMap κ β') (key : β → κ) (key' : β' → κ) (R : β → β' → Prop)
    (p : β → Bool) (p' : β' → Bool) (hkey : ∀ k v, m.get? k = some v → key v = k)
    (hkey' : ∀ k v, m'.get? k = some v → key' v = k) (h : ∀ k, Option.Rel R (m.get? k) (m'.get? k))
    (hp : ∀ a b, R a b → p a = p' b) :
    List.Forall₂ R ((m.values.filter p).insertionSort fun a b => key a ≤ key b)
      ((m'.values.filter p').insertionSort fun a b => key' a ≤ key' b) := by
  have hrel : ∀ {a b}, m.get? (key a) = some a → m'.get? (key' b) = some b → key a = key' b → R a b := by
    intro a b ha hb heq
    have hboth := h (key a)
    rw [ha, heq, hb] at hboth
    cases hboth with
    | some hab => exact hab
  refine List.forall₂_of_map_eq (f := key) (g := key') (List.insertionSort_map_eq ?_) fun a ha b hb => ?_
  · refine (List.perm_ext_iff_of_nodup (filter_values_keys_nodup hkey p) (filter_values_keys_nodup hkey' p')).mpr fun k => ?_
    simp only [List.mem_map, mem_filter_values hkey, mem_filter_values hkey']
    constructor
    · rintro ⟨a, ⟨ha, hpa⟩, rfl⟩
      have hboth := h (key a)
      rw [ha] at hboth
      cases hother : m'.get? (key a) with
      | none => rw [hother] at hboth; cases hboth
      | some b =>
        have hb := hkey' _ b hother
        rw [hother] at hboth
        cases hboth with
        | some hab => exact ⟨b, ⟨by rw [hb]; exact hother, (hp a b hab).symm.trans hpa⟩, hb⟩
    · rintro ⟨b, ⟨hb, hpb⟩, rfl⟩
      have hboth := h (key' b)
      rw [hb] at hboth
      cases hother : m.get? (key' b) with
      | none => rw [hother] at hboth; cases hboth
      | some a =>
        have ha := hkey _ a hother
        rw [hother] at hboth
        cases hboth with
        | some hab => exact ⟨a, ⟨by rw [ha]; exact hother, (hp a b hab).trans hpb⟩, ha⟩
  · rw [List.mem_insertionSort] at ha hb
    exact hrel ((mem_filter_values hkey).mp ha).1 ((mem_filter_values hkey').mp hb).1

end OrderedMap
