import Maruhi.Lib.OrderedMap
import Mathlib.Order.Lattice

/-!
# First come, first served, until a deadline

A table of claims. The first claim of a key holds it until its deadline, and a row whose deadline has passed leaves
with the next claim of any key.
-/

namespace FirstCome

structure Claim (V T : Type) where
  value : V
  deadline : T
  deriving DecidableEq

abbrev Table (K V T : Type) := OrderedMap K (Claim V T)

variable {K V T : Type} [DecidableEq K] [LinearOrder T]

/-- The value a key is held by. -/
def holder (table : Table K V T) (key : K) (now : T) : Option V :=
  (table.get? key).bind fun claim => if now < claim.deadline then some claim.value else none

def live (table : Table K V T) (now : T) : Table K V T :=
  table.without (table.keysWhere fun claim => claim.deadline ≤ now)

/-- A claim of a key that is held changes nothing. -/
def record (table : Table K V T) (key : K) (claim : Claim V T) (now : T) : Table K V T :=
  if (live table now).has key then live table now else (live table now).set key claim

theorem get?_live (table : Table K V T) (now : T) (key : K) :
    (live table now).get? key = (table.get? key).filter fun claim => now < claim.deadline := by
  unfold live
  rw [OrderedMap.get?_without]
  cases hrow : table.get? key with
  | none => simp
  | some claim =>
    by_cases hdue : claim.deadline ≤ now
    · have hkey : key ∈ table.keysWhere fun claim => claim.deadline ≤ now :=
        OrderedMap.mem_keysWhere.mpr ⟨claim, hrow, decide_eq_true hdue⟩
      simp [hkey, Option.filter, not_lt.mpr hdue]
    · have hkey : key ∉ table.keysWhere fun claim => claim.deadline ≤ now := by
        rw [OrderedMap.mem_keysWhere]
        rintro ⟨claim', hrow', hdue'⟩
        rw [hrow] at hrow'
        cases hrow'
        exact hdue (of_decide_eq_true hdue')
      simp [hkey, Option.filter, not_le.mp hdue]

theorem get?_record_self (table : Table K V T) (key : K) (claim : Claim V T) (now : T) :
    (record table key claim now).get? key = some (((live table now).get? key).getD claim) := by
  unfold record
  split_ifs with h
  · obtain ⟨row, hrow⟩ := (OrderedMap.has_iff _ _).mp h
    rw [hrow, Option.getD_some]
  · rw [Bool.not_eq_true, OrderedMap.has_eq_false_iff] at h
    rw [h, Option.getD_none, OrderedMap.get?_set_self]

theorem get?_record_ne (table : Table K V T) {key other : K} (claim : Claim V T) (now : T) (h : other ≠ key) :
    (record table key claim now).get? other = (live table now).get? other := by
  unfold record
  split_ifs
  · rfl
  · exact OrderedMap.get?_set_ne _ _ h

/-! ## The claims that were granted -/

structure Granted (K V T : Type) extends Claim V T where
  key : K

/-- At `now` the table holds every granted claim whose deadline is ahead, and no other claims. -/
structure Keeps (granted : List (Granted K V T)) (table : Table K V T) (now : T) : Prop where
  held : ∀ g ∈ granted, now < g.deadline → table.get? g.key = some g.toClaim
  traced : ∀ key claim, table.get? key = some claim → ∃ g ∈ granted, g.key = key ∧ g.toClaim = claim

theorem Keeps.empty (now : T) : Keeps [] (.empty : Table K V T) now where
  held := by simp
  traced := fun key claim h => by cases h

theorem Keeps.later {granted : List (Granted K V T)} {table : Table K V T} {now later : T} (h : Keeps granted table now)
    (hle : now ≤ later) : Keeps granted table later :=
  ⟨fun g hg hlt => h.held g hg (hle.trans_lt hlt), h.traced⟩

theorem Keeps.holder_eq {granted : List (Granted K V T)} {table : Table K V T} {now : T} (h : Keeps granted table now)
    {g : Granted K V T} (hg : g ∈ granted) (hlt : now < g.deadline) : holder table g.key now = some g.value := by
  rw [holder, h.held g hg hlt, Option.bind_some, if_pos hlt]

theorem Keeps.record {granted : List (Granted K V T)} {table : Table K V T} {now : T} (h : Keeps granted table now)
    (g : Granted K V T) (hsame : ∀ g' ∈ granted, g'.key = g.key → g'.deadline = g.deadline) (hlt : now < g.deadline)
    (hpass : ∀ v, holder table g.key now = some v → v = g.value) :
    (∀ g' ∈ granted, g'.key = g.key → g'.value = g.value) ∧
      Keeps (granted ++ [g]) (FirstCome.record table g.key g.toClaim now) now := by
  have hvalue : ∀ g' ∈ granted, g'.key = g.key → g'.value = g.value := by
    intro g' hg' hkey
    apply hpass
    rw [← hkey]
    exact h.holder_eq hg' ((hsame g' hg' hkey).symm ▸ hlt)
  have hself : (FirstCome.record table g.key g.toClaim now).get? g.key = some g.toClaim := by
    rw [get?_record_self, get?_live]
    cases hrow : table.get? g.key with
    | none => rfl
    | some claim =>
      obtain ⟨g', hg', hkey, rfl⟩ := h.traced g.key claim hrow
      have hclaim : g'.toClaim = g.toClaim := by
        rw [Claim.mk.injEq]
        exact ⟨hvalue g' hg' hkey, hsame g' hg' hkey⟩
      rw [hclaim]
      simp [Option.filter, hlt]
  refine ⟨hvalue, ?_, ?_⟩
  · intro g' hg' hlt'
    rcases List.mem_append.mp hg' with hg' | hg'
    · by_cases hkey : g'.key = g.key
      · rw [hkey, hself, Option.some.injEq, Claim.mk.injEq]
        exact ⟨(hvalue g' hg' hkey).symm, (hsame g' hg' hkey).symm⟩
      · rw [get?_record_ne _ _ _ hkey, get?_live, h.held g' hg' hlt']
        simp [Option.filter, hlt']
    · rw [List.mem_singleton.mp hg', hself]
  · intro key claim hrow
    by_cases hkey : key = g.key
    · subst hkey
      rw [hself] at hrow
      cases hrow
      exact ⟨g, by simp, rfl, rfl⟩
    · rw [get?_record_ne _ _ _ hkey, get?_live] at hrow
      obtain ⟨hrow, -⟩ := Option.filter_eq_some_iff.mp hrow
      obtain ⟨g', hg', h'⟩ := h.traced key claim hrow
      exact ⟨g', List.mem_append_left _ hg', h'⟩

end FirstCome
