import Mathlib.Algebra.Order.Field.Power
import Mathlib.Data.Int.Log
import Mathlib.Data.Rat.Floor
import Mathlib.Order.WithBot
import Mathlib.Tactic.Linarith
import Mathlib.Tactic.NormNum
import Mathlib.Tactic.Positivity

/-!
# Binary64 numbers

A number of the format by its value. A result is rounded to the nearest one, a tie to the even one.
-/

namespace Binary64

/-- A value or an infinity. Zero has one sign. -/
abbrev Extended := WithBot (WithTop ℚ)

def finite (q : ℚ) : Extended := ((q : WithTop ℚ) : Extended)

def nearestInt (q : ℚ) : ℤ :=
  let below := ⌊q⌋
  let rest := q - below
  if rest < 1 / 2 then below else if 1 / 2 < rest then below + 1 else if below % 2 = 0 then below else below + 1

/-- The exponent of the last of 53 places. Below the smallest normal number the places stay. -/
def lastPlace (q : ℚ) : ℤ := max (Int.log 2 |q| - 52) (-1074)

/-- The nearest number where the exponent has no upper bound. -/
def nearestFinite (q : ℚ) : ℚ := nearestInt (q / 2 ^ lastPlace q) * 2 ^ lastPlace q

def nearest (q : ℚ) : Extended :=
  if 2 ^ 1024 ≤ nearestFinite q then ⊤ else if nearestFinite q ≤ -2 ^ 1024 then ⊥ else finite (nearestFinite q)

/-- The sum with a finite number. -/
def plus : Extended → ℚ → Extended
  | some (some q), d => nearest (q + d)
  | x, _ => x

def value? : Extended → Option ℚ
  | some (some q) => some q
  | _ => none

theorem finite_lt_finite {p q : ℚ} : finite p < finite q ↔ p < q := by
  unfold finite
  rw [WithBot.coe_lt_coe, WithTop.coe_lt_coe]

theorem finite_le_finite {p q : ℚ} : finite p ≤ finite q ↔ p ≤ q := by
  unfold finite
  rw [WithBot.coe_le_coe, WithTop.coe_le_coe]

/-! ## The nearest integer -/

theorem le_nearestInt {k : ℤ} {q : ℚ} (h : (k : ℚ) ≤ q) : k ≤ nearestInt q := by
  have hfloor : k ≤ ⌊q⌋ := Int.le_floor.mpr h
  unfold nearestInt
  dsimp only
  split_ifs <;> omega

theorem nearestInt_le {k : ℤ} {q : ℚ} (h : q ≤ k) : nearestInt q ≤ k := by
  unfold nearestInt
  dsimp only
  rcases h.lt_or_eq with hlt | rfl
  · have hfloor : ⌊q⌋ < k := Int.floor_lt.mpr hlt
    split_ifs <;> omega
  · rw [Int.floor_intCast, sub_self, if_pos (by norm_num)]

/-! ## Whole numbers of the format -/

theorem two_zpow_pos (e : ℤ) : (0 : ℚ) < 2 ^ e := zpow_pos two_pos e

theorem int_multiple {e : ℤ} (he : e ≤ 0) (k : ℤ) : ∃ m : ℤ, (k : ℚ) = m * 2 ^ e := by
  obtain ⟨j, hj⟩ := Int.eq_ofNat_of_zero_le (neg_nonneg.mpr he)
  refine ⟨k * 2 ^ j, ?_⟩
  rw [show e = -(j : ℤ) by omega, zpow_neg, zpow_natCast]
  push_cast
  field_simp

theorem le_nearestFinite_of_multiple {m : ℤ} {q : ℚ} (h : m * 2 ^ lastPlace q ≤ q) :
    m * 2 ^ lastPlace q ≤ nearestFinite q := by
  have hm : (m : ℚ) ≤ q / 2 ^ lastPlace q := (le_div_iff₀ (two_zpow_pos _)).mpr h
  exact mul_le_mul_of_nonneg_right (by exact_mod_cast le_nearestInt hm) (two_zpow_pos _).le

theorem nearestFinite_le_of_multiple {m : ℤ} {q : ℚ} (h : q ≤ m * 2 ^ lastPlace q) :
    nearestFinite q ≤ m * 2 ^ lastPlace q := by
  have hm : q / 2 ^ lastPlace q ≤ m := (div_le_iff₀ (two_zpow_pos _)).mpr h
  exact mul_le_mul_of_nonneg_right (by exact_mod_cast nearestInt_le hm) (two_zpow_pos _).le

theorem lastPlace_pos {q : ℚ} (hq : 0 ≤ q) (h : 0 < lastPlace q) : lastPlace q = Int.log 2 q - 52 ∧ 2 ^ 53 ≤ q := by
  unfold lastPlace at h ⊢
  rw [abs_of_nonneg hq] at h ⊢
  have hlog : 53 ≤ Int.log 2 q := by omega
  have hpos : 0 < q := by
    refine lt_of_le_of_ne hq fun hzero => ?_
    rw [← hzero, Int.log_zero_right] at hlog
    omega
  refine ⟨by omega, ?_⟩
  exact_mod_cast (Int.zpow_le_iff_le_log one_lt_two hpos).mpr hlog

theorem le_nearestFinite {n : ℕ} (hn : n ≤ 2 ^ 53) {q : ℚ} (h : (n : ℚ) ≤ q) : (n : ℚ) ≤ nearestFinite q := by
  have hq : 0 ≤ q := (Nat.cast_nonneg n).trans h
  rcases le_or_gt (lastPlace q) 0 with he | he
  · obtain ⟨m, hm⟩ := int_multiple he n
    rw [Int.cast_natCast] at hm
    rw [hm] at h ⊢
    exact le_nearestFinite_of_multiple h
  · obtain ⟨hplace, hlarge⟩ := lastPlace_pos hq he
    have hpos : 0 < q := lt_of_lt_of_le (by positivity) hlarge
    have hlog : ((2 ^ 52 : ℤ) : ℚ) * 2 ^ lastPlace q ≤ q := by
      have hself := Int.zpow_log_le_self one_lt_two hpos
      rw [hplace, zpow_sub₀ two_ne_zero]
      push_cast at hself ⊢
      calc (2 : ℚ) ^ 52 * (2 ^ Int.log 2 q / 2 ^ (52 : ℤ)) = 2 ^ Int.log 2 q := by
            rw [zpow_ofNat]
            field_simp
        _ ≤ q := hself
    have htwo : (2 : ℚ) ≤ 2 ^ lastPlace q := by
      calc (2 : ℚ) = 2 ^ (1 : ℤ) := (zpow_one 2).symm
        _ ≤ 2 ^ lastPlace q := zpow_le_zpow_right₀ one_le_two he
    calc (n : ℚ) ≤ 2 ^ 53 := by exact_mod_cast hn
      _ = 2 ^ 52 * 2 := by norm_num
      _ ≤ ((2 ^ 52 : ℤ) : ℚ) * 2 ^ lastPlace q := by
        push_cast
        exact mul_le_mul_of_nonneg_left htwo (by positivity)
      _ ≤ nearestFinite q := le_nearestFinite_of_multiple hlog

theorem nearestFinite_le {n : ℕ} (hn : n ≤ 2 ^ 53) {q : ℚ} (h : q ≤ n) : nearestFinite q ≤ n := by
  rcases lt_or_ge q 0 with hneg | hq
  · have hzero : nearestFinite q ≤ ((0 : ℤ) : ℚ) * 2 ^ lastPlace q := by
      apply nearestFinite_le_of_multiple
      rw [Int.cast_zero, zero_mul]
      exact hneg.le
    rw [Int.cast_zero, zero_mul] at hzero
    exact hzero.trans (Nat.cast_nonneg n)
  rcases le_or_gt (lastPlace q) 0 with he | he
  · obtain ⟨m, hm⟩ := int_multiple he n
    rw [Int.cast_natCast] at hm
    rw [hm] at h ⊢
    exact nearestFinite_le_of_multiple h
  · obtain ⟨hplace, hlarge⟩ := lastPlace_pos hq he
    -- only 2^53 itself is left
    have hbound : (n : ℚ) ≤ 2 ^ 53 := by exact_mod_cast hn
    have hsame : q = 2 ^ 53 := le_antisymm (h.trans hbound) hlarge
    have hlog : Int.log 2 q = 53 := by
      rw [hsame]
      exact_mod_cast Int.log_zpow (R := ℚ) one_lt_two 53
    rw [hlog] at hplace
    have htwice : ((2 ^ 52 : ℤ) : ℚ) * 2 ^ lastPlace q = 2 ^ 53 := by
      rw [hplace]
      norm_num
    calc nearestFinite q ≤ ((2 ^ 52 : ℤ) : ℚ) * 2 ^ lastPlace q := nearestFinite_le_of_multiple (htwice.ge.trans' hsame.le)
      _ = q := htwice.trans hsame.symm
      _ ≤ n := h

/-! ## Comparisons with a clock -/

theorem le_nearest {n : ℕ} (hn : n ≤ 2 ^ 53) {q : ℚ} (h : (n : ℚ) ≤ q) : finite n ≤ nearest q := by
  have hle := le_nearestFinite hn h
  unfold nearest
  split_ifs with htop hbot
  · exact le_top
  · have hlarge : -(2 : ℚ) ^ 1024 < 0 := neg_lt_zero.mpr (by positivity)
    exact absurd ((hle.trans hbot).trans_lt hlarge) (not_lt.mpr (Nat.cast_nonneg n))
  · exact finite_le_finite.mpr hle

theorem nearest_le {n : ℕ} (hn : n ≤ 2 ^ 53) {q : ℚ} (h : q ≤ n) : nearest q ≤ finite n := by
  have hle := nearestFinite_le hn h
  unfold nearest
  split_ifs with htop hbot
  · have hbound : (n : ℚ) ≤ 2 ^ 53 := by exact_mod_cast hn
    have hlarge : (2 : ℚ) ^ 53 < 2 ^ 1024 := pow_lt_pow_right₀ one_lt_two (by norm_num)
    exact absurd (htop.trans (hle.trans hbound)) (not_le.mpr hlarge)
  · exact bot_le
  · exact finite_le_finite.mpr hle

theorem lt_of_lt_nearest {n : ℕ} (hn : n ≤ 2 ^ 53) {q : ℚ} (h : finite n < nearest q) : (n : ℚ) < q := by
  by_contra hle
  exact absurd (nearest_le hn (not_lt.mp hle)) (not_le.mpr h)

theorem lt_nearest_of_le {n : ℕ} (hn : n + 1 ≤ 2 ^ 53) {q : ℚ} (h : (n : ℚ) + 1 ≤ q) : finite n < nearest q := by
  have hlt : (n : ℚ) < (n + 1 : ℕ) := by exact_mod_cast Nat.lt_succ_self n
  exact (finite_lt_finite.mpr hlt).trans_le (le_nearest hn (by exact_mod_cast h))

/-- A deadline is further than a margin beyond what passes a shorter one, unless it is a fraction. -/
theorem lt_plus_of_lt_plus {n later near far : ℕ} (hlater : later + 1 ≤ 2 ^ 53) (hn : n ≤ 2 ^ 53) {x : Extended}
    (hpass : finite n < plus x near) (hgap : later + near ≤ n + far)
    (hwhole : later + near = n + far → ∀ q, x = finite q → ∃ k : ℤ, q = k) : finite later < plus x far := by
  match x with
  | ⊥ => exact absurd hpass not_lt_bot
  | (⊤ : WithTop ℚ) => exact WithBot.coe_lt_coe.mpr (WithTop.coe_lt_top _)
  | ((q : ℚ) : WithTop ℚ) =>
    have hq : (n : ℚ) < q + near := lt_of_lt_nearest hn hpass
    refine lt_nearest_of_le hlater ?_
    rcases hgap.lt_or_eq with hlt | heq
    · have hgap' : (later : ℚ) + near + 1 ≤ n + far := by exact_mod_cast hlt
      linarith
    · -- a whole number past the reading is past it by one
      obtain ⟨k, rfl⟩ := hwhole heq q rfl
      have hk : (n : ℤ) + 1 ≤ k + near := by
        have : (n : ℤ) < k + near := by exact_mod_cast hq
        omega
      have hk' : (n : ℚ) + 1 ≤ k + near := by exact_mod_cast hk
      have heq' : (later : ℚ) + near = n + far := by exact_mod_cast heq
      linarith

theorem nearestFinite_int (k : ℤ) : ∃ m : ℤ, nearestFinite k = m := by
  rcases le_or_gt (lastPlace k) 0 with he | he
  · obtain ⟨m, hm⟩ := int_multiple he k
    exact ⟨k, le_antisymm ((nearestFinite_le_of_multiple hm.le).trans_eq hm.symm)
      (hm.trans_le (le_nearestFinite_of_multiple hm.ge))⟩
  · obtain ⟨j, hj⟩ := Int.eq_ofNat_of_zero_le he.le
    refine ⟨nearestInt (k / 2 ^ lastPlace k) * 2 ^ j, ?_⟩
    unfold nearestFinite
    push_cast
    rw [hj, zpow_natCast]

theorem nearest_int {k : ℤ} {q : ℚ} (h : nearest k = finite q) : ∃ m : ℤ, q = m := by
  unfold nearest at h
  split_ifs at h
  · cases h
  · cases h
  · cases h
    exact nearestFinite_int k

end Binary64
