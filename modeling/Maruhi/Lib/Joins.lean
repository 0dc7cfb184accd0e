import Mathlib.Order.WithBot
import Mathlib.Order.Lattice
import Mathlib.Data.List.Perm.Basic
import Mathlib.Data.List.Induction

/-!
# The join of a list

In a join semilattice the order of a list and its repetitions do not matter. In a linear order the join
is one of the elements.
-/

section Joins
variable {α : Type} [SemilatticeSup α] [OrderBot α]

def joined (l : List α) : α := l.foldl (· ⊔ ·) ⊥

@[simp] theorem joined_nil : joined ([] : List α) = ⊥ := rfl

theorem joined_snoc (l : List α) (a : α) : joined (l ++ [a]) = joined l ⊔ a := by simp [joined]

theorem joined_perm {l l' : List α} (h : l.Perm l') : joined l = joined l' :=
  h.foldl_eq' (fun x _ y _ z => sup_right_comm z x y) ⊥

theorem le_joined {l : List α} {a : α} (h : a ∈ l) : a ≤ joined l := by
  induction l using List.reverseRecOn with
  | nil => simp at h
  | append_singleton l b ih =>
    rw [joined_snoc]
    rcases List.mem_append.mp h with h | h
    · exact (ih h).trans le_sup_left
    · exact List.mem_singleton.mp h ▸ le_sup_right

theorem joined_snoc_mem {l : List α} {a : α} (h : a ∈ l) : joined (l ++ [a]) = joined l := by
  rw [joined_snoc]
  exact sup_eq_left.mpr (le_joined h)

end Joins

theorem joined_mem {α : Type} [LinearOrder α] (l : List (WithBot α)) (a : α) (h : joined l = ↑a) : ↑a ∈ l := by
  induction l using List.reverseRecOn with
  | nil => cases h
  | append_singleton l b ih =>
    rw [joined_snoc] at h
    rw [List.mem_append, List.mem_singleton]
    rcases le_total (joined l) b with hle | hle
    · rw [sup_eq_right.mpr hle] at h
      exact Or.inr h.symm
    · rw [sup_eq_left.mpr hle] at h
      exact Or.inl (ih h)
