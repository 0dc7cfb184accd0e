import Mathlib.Tactic.Common
import Mathlib.Data.List.TakeDrop
import Mathlib.Data.List.TakeWhile

/-!
# Change points

A list of values, each current from its own point on. The scan keeps the latest value it has
passed and stops at the first whose point is still ahead.
-/

namespace Timeline
variable {α : Type}

/-- The value current at `seq`, none before the first change point. -/
def currentAt (start : α → Nat) (changes : List α) (seq : Nat) : Option α :=
  (changes.takeWhile fun a => start a ≤ seq).getLast?

variable (start : α → Nat)

@[simp] theorem currentAt_nil (seq : Nat) : currentAt start [] seq = none := rfl

theorem currentAt_of_all_le {changes : List α} {seq : Nat} (h : ∀ a ∈ changes, start a ≤ seq) :
    currentAt start changes seq = changes.getLast? := by
  rw [currentAt, List.takeWhile_eq_self_iff.mpr (by simpa using h)]

theorem currentAt_snoc_of_lt (changes : List α) {a : α} {seq : Nat} (h : seq < start a) :
    currentAt start (changes ++ [a]) seq = currentAt start changes seq := by
  have hlast : [a].takeWhile (fun x => decide (start x ≤ seq)) = [] := by
    rw [List.takeWhile_cons_of_neg (by simpa using h)]
  unfold currentAt
  congr 1
  induction changes with
  | nil => exact hlast
  | cons x rest ih => rw [List.cons_append, List.takeWhile_cons, List.takeWhile_cons, ih]

theorem currentAt_snoc_of_le (changes : List α) {a : α} {seq : Nat} (h : ∀ x ∈ changes, start x ≤ seq)
    (ha : start a ≤ seq) : currentAt start (changes ++ [a]) seq = some a := by
  rw [currentAt_of_all_le, List.getLast?_append]
  · rfl
  · intro x hx
    rcases List.mem_append.mp hx with hx | hx
    · exact h x hx
    · rw [List.mem_singleton.mp hx]; exact ha

end Timeline
