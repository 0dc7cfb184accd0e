import Mathlib.Data.List.DropRight
import Mathlib.Data.List.TakeWhile

/-! # Cutting a list's two ends and what leads it -/

/-- The list without the elements at both ends that satisfy `p`. -/
def List.trimBy {α : Type} (p : α → Bool) (l : List α) : List α := (l.dropWhile p).rdropWhile p

namespace List
variable {α β : Type} {p : α → Bool}

theorem rdropWhile_map (f : α → β) (q : β → Bool) (l : List α) :
    (l.map f).rdropWhile q = (l.rdropWhile (q ∘ f)).map f := by
  unfold rdropWhile
  rw [← map_reverse, dropWhile_map, map_reverse]

theorem trimBy_map (f : α → β) (q : β → Bool) (l : List α) : (l.map f).trimBy q = (l.trimBy (q ∘ f)).map f := by
  unfold trimBy
  rw [dropWhile_map, rdropWhile_map]

theorem rdropWhile_split (p : α → Bool) (l : List α) : ∃ w, l = l.rdropWhile p ++ w ∧ ∀ u ∈ w, p u = true :=
  ⟨l.rtakeWhile p, rdropWhile_append_rtakeWhile.symm, fun _ hu => mem_rtakeWhile_imp hu⟩

theorem dropWhile_split (p : α → Bool) (l : List α) : ∃ w, l = w ++ l.dropWhile p ∧ ∀ u ∈ w, p u = true :=
  ⟨l.takeWhile p, takeWhile_append_dropWhile.symm, fun _ hu => mem_takeWhile_imp hu⟩

theorem trimBy_split (p : α → Bool) (l : List α) :
    ∃ w w', l = w ++ (l.trimBy p ++ w') ∧ (∀ u ∈ w, p u = true) ∧ ∀ u ∈ w', p u = true := by
  obtain ⟨w, hw, hpw⟩ := dropWhile_split p l
  obtain ⟨w', hw', hpw'⟩ := rdropWhile_split p (l.dropWhile p)
  exact ⟨w, w', by rw [trimBy, ← hw', ← hw], hpw, hpw'⟩

theorem mem_of_mem_rdropWhile {l : List α} {u : α} (h : u ∈ l.rdropWhile p) : u ∈ l := by
  have hleads := rdropWhile_prefix p l
  exact hleads.subset h

theorem mem_of_mem_trimBy {l : List α} {u : α} (h : u ∈ l.trimBy p) : u ∈ l :=
  (dropWhile_sublist p).subset (mem_of_mem_rdropWhile h)

theorem mem_trimBy_of_not {l : List α} {u : α} (h : u ∈ l) (hu : p u = false) : u ∈ l.trimBy p := by
  obtain ⟨w, w', hsplit, hw, hw'⟩ := trimBy_split p l
  rw [hsplit, mem_append, mem_append] at h
  rcases h with h | h | h
  · exact absurd (hw u h) (by rw [hu]; exact Bool.false_ne_true)
  · exact h
  · exact absurd (hw' u h) (by rw [hu]; exact Bool.false_ne_true)

theorem rdropWhile_append_right {w : List α} (hw : ∀ u ∈ w, p u = true) (l : List α) :
    (l ++ w).rdropWhile p = l.rdropWhile p := by
  unfold rdropWhile
  rw [reverse_append, dropWhile_append_of_pos fun u hu => hw u (mem_reverse.mp hu)]

theorem trimBy_append_right {w : List α} (hw : ∀ u ∈ w, p u = true) (l : List α) : (l ++ w).trimBy p = l.trimBy p := by
  unfold trimBy
  rw [dropWhile_append]
  split
  · rename_i hempty
    rw [isEmpty_iff.mp hempty, rdropWhile_nil, rdropWhile_eq_nil_iff]
    exact fun u hu => hw u ((dropWhile_sublist p).subset hu)
  · rw [rdropWhile_append_right hw]

theorem rdropWhile_cons_of_not {u : α} (hu : p u = false) (l : List α) : (u :: l).rdropWhile p = u :: l.rdropWhile p := by
  unfold rdropWhile
  rw [reverse_cons, dropWhile_append]
  split
  · rename_i hempty
    rw [isEmpty_iff.mp hempty, dropWhile_cons_of_neg (by rw [hu]; exact Bool.false_ne_true)]
    rfl
  · rw [reverse_append]
    rfl

theorem trimBy_dropWhile (l : List α) : (l.dropWhile p).trimBy p = l.trimBy p := by
  unfold trimBy
  rw [dropWhile_idempotent]

theorem head_dropWhile_false {l : List α} {u : α} {rest : List α} (h : l.dropWhile p = u :: rest) : p u = false := by
  have hne : l.dropWhile p ≠ [] := by rw [h]; exact cons_ne_nil u rest
  have hhead := head_dropWhile_not p hne
  simpa [h] using hhead

theorem takeWhile_append_cons {l : List α} {u : α} (hl : ∀ v ∈ l, p v = true) (hu : p u = false) (rest : List α) :
    (l ++ u :: rest).takeWhile p = l := by
  rw [takeWhile_append_of_pos hl, takeWhile_cons_of_neg (by rw [hu]; exact Bool.false_ne_true), append_nil]

theorem takeWhile_append_of_mem {l : List α} {u : α} (hmem : u ∈ l) (hu : p u = false) (l' : List α) :
    (l ++ l').takeWhile p = l.takeWhile p := by
  rw [takeWhile_append, if_neg]
  intro hlength
  have hleads : l.takeWhile p <+: l := takeWhile_prefix p
  have hwhole := hleads.eq_of_length hlength
  rw [takeWhile_eq_self_iff] at hwhole
  rw [hwhole u hmem] at hu
  cases hu

/-! ## Marked elements that only lead -/

/-- A marked element satisfies `p` and so does all that stands before it. -/
def OnlyLeads (p marked : α → Bool) (l : List α) : Prop := ∀ u ∈ l.dropWhile p, marked u = false

variable {marked : α → Bool}

theorem OnlyLeads.trimBy {l : List α} (h : OnlyLeads p marked l) : ∀ u ∈ l.trimBy p, marked u = false :=
  fun u hu => h u (mem_of_mem_rdropWhile hu)

theorem onlyLeads_of_unmarked {l : List α} (h : ∀ u ∈ l, marked u = false) : OnlyLeads p marked l :=
  fun u hu => h u ((dropWhile_sublist p).subset hu)

theorem OnlyLeads.append_left {w l : List α} (hw : ∀ u ∈ w, p u = true) (h : OnlyLeads p marked l) :
    OnlyLeads p marked (w ++ l) := by
  unfold OnlyLeads
  rw [dropWhile_append_of_pos hw]
  exact h

end List
