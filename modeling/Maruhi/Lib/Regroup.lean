import Mathlib.Data.List.Induction
import Mathlib.Tactic.Common
import Mathlib.Tactic.Ring

/-!
# Digits of one width written in digits of another

The digits come one by one into an accumulator, and digits of the other width leave it at the top. What was written
and what is left in the accumulator make up the number that came in.
-/

namespace Regroup

/-- The number that digits of `w` bits write, the first on top. -/
def value (w : Nat) (digits : List Nat) : Nat := digits.foldl (fun n d => n * 2 ^ w + d) 0

theorem value_snoc (w : Nat) (digits : List Nat) (d : Nat) : value w (digits ++ [d]) = value w digits * 2 ^ w + d := by
  unfold value
  rw [List.foldl_append, List.foldl_cons, List.foldl_nil]

theorem value_inj {w : Nat} {l m : List Nat} (hlength : l.length = m.length) (hl : ∀ d ∈ l, d < 2 ^ w)
    (hm : ∀ d ∈ m, d < 2 ^ w) (h : value w l = value w m) : l = m := by
  induction l using List.reverseRecOn generalizing m with
  | nil => exact (List.eq_nil_of_length_eq_zero hlength.symm).symm
  | append_singleton l d ih =>
    cases m using List.reverseRecOn with
    | nil => simp at hlength
    | append_singleton m e =>
      rw [value_snoc, value_snoc] at h
      have hd := hl d (by simp)
      have he := hm e (by simp)
      have hdigit : d = e := by
        have hmod := congrArg (· % 2 ^ w) h
        simpa [Nat.add_mod, Nat.mod_eq_of_lt hd, Nat.mod_eq_of_lt he] using hmod
      subst hdigit
      have hrest := Nat.eq_of_mul_eq_mul_right (Nat.two_pow_pos w) (Nat.add_right_cancel h)
      rw [ih (by simpa using hlength) (fun x hx => hl x (List.mem_append_left _ hx))
        (fun x hx => hm x (List.mem_append_left _ hx)) hrest]

/-- What digits of `i` bits have become: digits of `o` bits, and `bits` bits in the accumulator. -/
structure Regrouped (i o : Nat) (input output : List Nat) (bits acc : Nat) : Prop where
  value_eq : value o output * 2 ^ bits + acc = value i input
  size_eq : o * output.length + bits = i * input.length
  acc_lt : acc < 2 ^ bits
  output_lt : ∀ d ∈ output, d < 2 ^ o

namespace Regrouped
variable {i o bits acc : Nat} {input output : List Nat}

theorem start : Regrouped i o [] [] 0 0 := ⟨by simp [value], by simp, by simp, by simp⟩

theorem push (h : Regrouped i o input output bits acc) {d : Nat} (hd : d < 2 ^ i) :
    Regrouped i o (input ++ [d]) output (bits + i) (acc * 2 ^ i + d) where
  value_eq := by
    rw [value_snoc, ← h.value_eq, Nat.pow_add]
    ring
  size_eq := by
    rw [List.length_append, List.length_singleton, Nat.mul_add, ← h.size_eq]
    omega
  acc_lt := by
    have hstep : (acc + 1) * 2 ^ i ≤ 2 ^ bits * 2 ^ i := Nat.mul_le_mul_right _ h.acc_lt
    rw [Nat.pow_add]
    rw [Nat.add_mul, Nat.one_mul] at hstep
    omega
  output_lt := h.output_lt

theorem emit (h : Regrouped i o input output bits acc) (ho : o ≤ bits) :
    Regrouped i o input (output ++ [acc / 2 ^ (bits - o)]) (bits - o) (acc % 2 ^ (bits - o)) where
  value_eq := by
    have hpow : 2 ^ bits = 2 ^ o * 2 ^ (bits - o) := by rw [← Nat.pow_add, Nat.add_sub_cancel' ho]
    rw [value_snoc, ← h.value_eq, hpow, Nat.add_mul, Nat.add_assoc, Nat.mul_comm (acc / _), Nat.div_add_mod, Nat.mul_assoc]
  size_eq := by
    rw [List.length_append, List.length_singleton, Nat.mul_add, ← h.size_eq]
    omega
  acc_lt := Nat.mod_lt _ (Nat.two_pow_pos _)
  output_lt := by
    intro d hd
    rcases List.mem_append.mp hd with hd | hd
    · exact h.output_lt d hd
    · rw [List.mem_singleton.mp hd]
      refine Nat.div_lt_of_lt_mul ?_
      rw [← Nat.pow_add, Nat.sub_add_cancel ho]
      exact h.acc_lt

theorem pad (h : Regrouped i o input output bits acc) (hbits : bits ≤ o) :
    value o (output ++ [acc * 2 ^ (o - bits)]) = value i input * 2 ^ (o - bits) ∧ acc * 2 ^ (o - bits) < 2 ^ o := by
  have hpow : 2 ^ o = 2 ^ bits * 2 ^ (o - bits) := by rw [← Nat.pow_add, Nat.add_sub_cancel' hbits]
  constructor
  · rw [value_snoc, ← h.value_eq, hpow]
    ring
  · rw [hpow]
    exact Nat.mul_lt_mul_of_pos_right h.acc_lt (Nat.two_pow_pos _)

end Regrouped

/-! ## Accumulators of 32 bits -/

section Words
variable {x d : BitVec 32} {n w : Nat}

theorem toNat_push (hfits : x.toNat * 2 ^ w + 2 ^ w ≤ 2 ^ 32) (hd : d.toNat < 2 ^ w) :
    (x <<< w ||| d).toNat = x.toNat * 2 ^ w + d.toNat := by
  have hpos := Nat.two_pow_pos w
  rw [BitVec.toNat_or, BitVec.toNat_shiftLeft, Nat.mod_eq_of_lt (by rw [Nat.shiftLeft_eq]; omega),
    ← Nat.shiftLeft_add_eq_or_of_lt hd, Nat.shiftLeft_eq]

/-- No bit is lost, and the sign bit stays clear. -/
def Fits (acc digit : BitVec 32) (width : Nat) : Prop :=
  (acc <<< width ||| digit).toNat = acc.toNat * 2 ^ width + digit.toNat ∧ (acc <<< width ||| digit).toNat < 2 ^ 31

theorem fits_of_lt {k : Nat} (hx : x.toNat < 2 ^ k) (hd : d.toNat < 2 ^ w) (hroom : k + w ≤ 31) : Fits x d w := by
  have hstep : (x.toNat + 1) * 2 ^ w ≤ 2 ^ k * 2 ^ w := Nat.mul_le_mul_right _ hx
  have hpow : 2 ^ (k + w) ≤ 2 ^ 31 := Nat.pow_le_pow_right (by decide) hroom
  rw [Nat.add_mul, Nat.one_mul, ← Nat.pow_add] at hstep
  have hpush := toNat_push (show x.toNat * 2 ^ w + 2 ^ w ≤ 2 ^ 32 by omega) hd
  exact ⟨hpush, by omega⟩

theorem toNat_mask (hn : n < 32) : (x &&& ((1#32 <<< n) - 1#32)).toNat = x.toNat % 2 ^ n := by
  have hpow : 2 ^ n < 2 ^ 32 := Nat.pow_lt_pow_right (by decide) hn
  have hpos := Nat.two_pow_pos n
  have hmask : ((1#32 <<< n) - 1#32).toNat = 2 ^ n - 1 := by
    rw [BitVec.toNat_sub, BitVec.toNat_shiftLeft, Nat.shiftLeft_eq]
    simp only [BitVec.toNat_ofNat]
    rw [Nat.mod_eq_of_lt (show 1 % 2 ^ 32 * 2 ^ n < 2 ^ 32 by omega)]
    omega
  rw [BitVec.toNat_and, hmask, Nat.and_two_pow_sub_one_eq_mod]

theorem toNat_shift (hx : x.toNat < 2 ^ 31) : (x.sshiftRight n).toNat = x.toNat / 2 ^ n := by
  have hmsb : x.msb = false := by
    rw [BitVec.msb_eq_false_iff_two_mul_lt]
    omega
  rw [BitVec.sshiftRight_eq_of_msb_false hmsb, BitVec.toNat_ushiftRight, Nat.shiftRight_eq_div_pow]

end Words

end Regroup
