import Mathlib.Algebra.Order.Group.Defs
import Mathlib.Data.List.Count
import Mathlib.Tactic.Common

/-!
# Limits that look back over a window

A new time is admitted while fewer than `limit` of the recorded ones lie within `width` of it, the far end
included. No bound says that time moves forward.
-/

namespace Lookback
variable {T : Type} [AddCommGroup T] [LinearOrder T] [IsOrderedAddMonoid T]

/-- How many of the times count at `now`. -/
def counted (width now : T) (times : List T) : Nat := times.countP fun t => now - width ≤ t

/-- How many of the times lie in the window that starts at `start`, its two ends included. -/
def inWindow (width start : T) (times : List T) : Nat := times.countP fun t => start ≤ t && t ≤ start + width

theorem inWindow_le_counted {width start now : T} (h : now ≤ start + width) (times : List T) :
    inWindow width start times ≤ counted width now times := by
  unfold inWindow counted
  refine List.countP_mono_left fun t _ ht => ?_
  simp only [Bool.and_eq_true, decide_eq_true_eq] at ht ⊢
  exact (sub_le_iff_le_add.mpr h).trans ht.1

/-- An admitted time leaves every window within the limit, in whatever order the times come. -/
theorem inWindow_snoc {width now start : T} {limit : Nat} {times : List T} (h : inWindow width start times ≤ limit)
    (hadmitted : counted width now times < limit) : inWindow width start (times ++ [now]) ≤ limit := by
  have hsnoc : inWindow width start (times ++ [now]) =
      inWindow width start times + if start ≤ now && now ≤ start + width then 1 else 0 := by
    unfold inWindow
    rw [List.countP_append, List.countP_singleton]
  rw [hsnoc]
  split_ifs with hin
  · have hend : now ≤ start + width := by
      simp only [Bool.and_eq_true, decide_eq_true_eq] at hin
      exact hin.2
    have hle := inWindow_le_counted hend times
    omega
  · exact h

end Lookback
