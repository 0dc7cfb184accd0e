import Mathlib.Data.List.Basic
import Mathlib.Tactic.Common

/-!
# First of equals

A register takes values with the stamps they come at. It keeps the first one while the later ones equal it, and notes
a conflict for good once one differs.
-/

inductive Register (σ κ : Type)
  | empty
  | held (stamp : σ) (value : κ)
  | conflict
  deriving DecidableEq, Repr

namespace Register
variable {σ κ : Type} [DecidableEq κ]

def put : Register σ κ → σ × κ → Register σ κ
  | empty, x => held x.1 x.2
  | held stamp value, x => if x.2 = value then held stamp value else conflict
  | conflict, _ => conflict

def ofList (l : List (σ × κ)) : Register σ κ := l.foldl put empty

theorem foldl_conflict (l : List (σ × κ)) : l.foldl put conflict = conflict := by
  induction l with
  | nil => rfl
  | cons x rest ih => exact ih

theorem foldl_held (l : List (σ × κ)) (stamp : σ) (value : κ) :
    l.foldl put (held stamp value) = if ∀ x ∈ l, x.2 = value then held stamp value else conflict := by
  induction l with
  | nil => exact (if_pos fun x hx => nomatch hx).symm
  | cons x rest ih =>
    rw [List.foldl_cons, put]
    by_cases hx : x.2 = value
    · rw [if_pos hx, ih]
      simp only [List.forall_mem_cons, hx, true_and]
    · rw [if_neg hx, foldl_conflict, if_neg]
      exact fun hall => hx (hall x List.mem_cons_self)

theorem ofList_cons (x : σ × κ) (l : List (σ × κ)) :
    ofList (x :: l) = if ∀ y ∈ l, y.2 = x.2 then held x.1 x.2 else conflict := foldl_held l x.1 x.2

theorem ofList_eq_empty {l : List (σ × κ)} : ofList l = empty ↔ l = [] := by
  cases l with
  | nil => exact iff_of_true rfl rfl
  | cons x rest =>
    rw [ofList_cons]
    split_ifs <;> simp

theorem ofList_eq_held {l : List (σ × κ)} {stamp : σ} {value : κ} :
    ofList l = held stamp value ↔ ∃ rest, l = (stamp, value) :: rest ∧ ∀ x ∈ rest, x.2 = value := by
  cases l with
  | nil => simp [ofList]
  | cons x rest =>
    rw [ofList_cons]
    constructor
    · intro h
      split_ifs at h with hall
      cases h
      exact ⟨rest, rfl, hall⟩
    · rintro ⟨rest', hl, hall⟩
      cases hl
      exact if_pos hall

theorem ofList_eq_conflict {l : List (σ × κ)} : ofList l = conflict ↔ ∃ x ∈ l, ∃ y ∈ l, x.2 ≠ y.2 := by
  cases l with
  | nil => simp [ofList]
  | cons x rest =>
    rw [ofList_cons]
    constructor
    · intro h
      split_ifs at h with hall
      simp only [not_forall] at hall
      obtain ⟨y, hy, hne⟩ := hall
      exact ⟨y, List.mem_cons_of_mem _ hy, x, List.mem_cons_self, hne⟩
    · rintro ⟨y, hy, z, hz, hne⟩
      rw [if_neg]
      intro hall
      have heach : ∀ w ∈ x :: rest, w.2 = x.2 := List.forall_mem_cons.mpr ⟨rfl, hall⟩
      exact hne ((heach y hy).trans (heach z hz).symm)

end Register
