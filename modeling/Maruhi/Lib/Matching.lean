import Mathlib.Data.List.Flatten
import Mathlib.Data.List.Forall2
import Mathlib.Data.List.Perm.Basic
import Mathlib.Tactic.Common

/-!
# Lists that match up to order

A list matches an expected one when some order of it relates to it element by element. Where the elements tell which
group they belong to, the list is matched group by group.
-/

namespace Matching
variable {α β κ : Type} {R : α → β → Prop} {expected more : List α} {rows rows' : List β}

/-- In some order, the rows are the expected ones. -/
def Matches (R : α → β → Prop) (expected : List α) (rows : List β) : Prop :=
  ∃ ordered, ordered.Perm rows ∧ List.Forall₂ R expected ordered

theorem Matches.perm (h : Matches R expected rows) (hperm : rows.Perm rows') : Matches R expected rows' := by
  obtain ⟨ordered, hordered, hall⟩ := h
  exact ⟨ordered, hordered.trans hperm, hall⟩

theorem Matches.length_eq (h : Matches R expected rows) : rows.length = expected.length := by
  obtain ⟨ordered, hordered, hall⟩ := h
  rw [hall.length_eq, hordered.length_eq]

theorem Matches.exists_of_mem (h : Matches R expected rows) {row : β} (hrow : row ∈ rows) : ∃ e ∈ expected, R e row := by
  obtain ⟨ordered, hordered, hall⟩ := h
  obtain ⟨i, hi, rfl⟩ := List.getElem_of_mem (hordered.mem_iff.mpr hrow)
  have hlt : i < expected.length := by
    rw [hall.length_eq]
    exact hi
  exact ⟨expected[i], List.getElem_mem hlt, hall.get hlt hi⟩

@[simp] theorem matches_nil_iff : Matches R [] rows ↔ rows = [] := by
  constructor
  · intro h
    exact List.length_eq_zero_iff.mp h.length_eq
  · rintro rfl
    exact ⟨[], List.Perm.refl _, List.Forall₂.nil⟩

theorem Matches.append (h : Matches R expected rows) (h' : Matches R more rows') :
    Matches R (expected ++ more) (rows ++ rows') := by
  obtain ⟨ordered, hordered, hall⟩ := h
  obtain ⟨ordered', hordered', hall'⟩ := h'
  exact ⟨ordered ++ ordered', hordered.append hordered', List.rel_append hall hall'⟩

theorem matches_append_iff (p : β → Bool) (hp : ∀ e ∈ expected, ∀ row, R e row → p row = true)
    (hp' : ∀ e ∈ more, ∀ row, R e row → p row = false) : Matches R (expected ++ more) rows ↔
      Matches R expected (rows.filter p) ∧ Matches R more (rows.filter fun row => !p row) := by
  constructor
  · rintro ⟨ordered, hordered, hall⟩
    obtain ⟨first, rest, hfirst, hrest, rfl⟩ : ∃ first rest, List.Forall₂ R expected first ∧
        List.Forall₂ R more rest ∧ ordered = first ++ rest := by
      refine ⟨ordered.take expected.length, ordered.drop expected.length, ?_, ?_, (List.take_append_drop _ _).symm⟩
      · simpa using List.forall₂_take expected.length hall
      · simpa using List.forall₂_drop expected.length hall
    have hyes : ∀ row ∈ first, p row = true := by
      intro row hrow
      obtain ⟨e, he, hR⟩ := Matches.exists_of_mem ⟨first, List.Perm.refl _, hfirst⟩ hrow
      exact hp e he row hR
    have hno : ∀ row ∈ rest, p row = false := by
      intro row hrow
      obtain ⟨e, he, hR⟩ := Matches.exists_of_mem ⟨rest, List.Perm.refl _, hrest⟩ hrow
      exact hp' e he row hR
    refine ⟨⟨first, ?_, hfirst⟩, ⟨rest, ?_, hrest⟩⟩
    · have := hordered.filter p
      rwa [List.filter_append, List.filter_eq_self.mpr hyes, List.filter_eq_nil_iff.mpr (by simpa using hno),
        List.append_nil] at this
    · have := hordered.filter fun row => !p row
      rwa [List.filter_append, List.filter_eq_nil_iff.mpr (by simpa using hyes),
        List.filter_eq_self.mpr (by simpa using hno), List.nil_append] at this
  · rintro ⟨h, h'⟩
    exact (h.append h').perm (List.filter_append_perm p rows)

/-- Groups with different names are matched one by one, and every row has the name of a group. -/
theorem matches_flatMap_iff [DecidableEq κ] {ι : Type} {key : β → κ} {items : List ι} {name : ι → κ}
    {group : ι → List α} (hnames : (items.map name).Nodup)
    (hR : ∀ i ∈ items, ∀ e ∈ group i, ∀ row, R e row → key row = name i) : Matches R (items.flatMap group) rows ↔
      (∀ row ∈ rows, key row ∈ items.map name) ∧
        ∀ i ∈ items, Matches R (group i) (rows.filter fun row => key row = name i) := by
  induction items generalizing rows with
  | nil =>
    rw [List.flatMap_nil, matches_nil_iff]
    simp [List.eq_nil_iff_forall_not_mem]
  | cons i rest ih =>
    rw [List.map_cons] at hnames
    obtain ⟨hnew, hrest⟩ := List.nodup_cons.mp hnames
    have hne : ∀ j ∈ rest, name j ≠ name i := fun j hj h => hnew (h ▸ List.mem_map_of_mem hj)
    have hother : ∀ e ∈ rest.flatMap group, ∀ row, R e row → decide (key row = name i) = false := by
      intro e he row hrow
      obtain ⟨j, hj, he⟩ := List.mem_flatMap.mp he
      rw [hR j (List.mem_cons_of_mem _ hj) e he row hrow]
      exact decide_eq_false (hne j hj)
    have hthis : ∀ e ∈ group i, ∀ row, R e row → decide (key row = name i) = true := fun e he row hrow =>
      decide_eq_true (hR i List.mem_cons_self e he row hrow)
    have hfilter : ∀ j ∈ rest, ((rows.filter fun row => !decide (key row = name i)).filter fun row => key row = name j) =
        rows.filter fun row => key row = name j := by
      intro j hj
      rw [List.filter_filter]
      refine List.filter_congr fun row _ => ?_
      by_cases h : key row = name j
      · simp [h, hne j hj]
      · simp [h]
    rw [List.flatMap_cons, matches_append_iff _ hthis hother,
      ih hrest fun j hj => hR j (List.mem_cons_of_mem _ hj), List.forall_mem_cons]
    constructor
    · rintro ⟨hi, hrows, hgroups⟩
      refine ⟨fun row hrow => ?_, hi, fun j hj => ?_⟩
      · rw [List.map_cons, List.mem_cons]
        by_cases h : key row = name i
        · exact Or.inl h
        · exact Or.inr (hrows row (List.mem_filter.mpr ⟨hrow, by simpa using h⟩))
      · rw [← hfilter j hj]
        exact hgroups j hj
    · rintro ⟨hrows, hi, hgroups⟩
      refine ⟨hi, fun row hrow => ?_, fun j hj => ?_⟩
      · obtain ⟨hrow, hnot⟩ := List.mem_filter.mp hrow
        have hmem := hrows row hrow
        rw [List.map_cons, List.mem_cons] at hmem
        exact hmem.resolve_left (by simpa using hnot)
      · rw [hfilter j hj]
        exact hgroups j hj

end Matching
