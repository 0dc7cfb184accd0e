import Maruhi.Lib.Text
import Mathlib.Algebra.BigOperators.Fin
import Mathlib.Algebra.BigOperators.Pi
import Mathlib.Algebra.Group.Units.Equiv
import Mathlib.Tactic.Abel

/-!
# Sharing a secret among all of a group

The shares are random values and the secret masked by their sum. All of them together unmask it, and any that lack one
go with every secret alike.
-/

namespace Sharing

/-! ## In a group -/

section Group
variable {G : Type} [AddCommGroup G] {n : Nat}

/-- The random values, and the secret masked by all of them. -/
def split (secret : G) (random : Fin n → G) : List G := List.ofFn random ++ [secret + ∑ i, random i]

theorem length_split (secret : G) (random : Fin n → G) : (split secret random).length = n + 1 := by simp [split]

/-- Where every element is its own opposite, the shares add up to the secret. -/
theorem sum_split (hself : ∀ x : G, x + x = 0) (secret : G) (random : Fin n → G) : (split secret random).sum = secret := by
  unfold split
  rw [List.sum_append, List.sum_ofFn, List.sum_singleton, add_comm secret, ← add_assoc, hself, zero_add]

/-- The random choices under which one secret looks like another whose difference from it is `delta`, to whoever
lacks one share. -/
def remask (missing : Nat) (delta : G) : (Fin n → G) ≃ (Fin n → G) :=
  if h : missing < n then Equiv.addRight (Pi.single ⟨missing, h⟩ delta) else Equiv.refl _

theorem split_remask {missing i : Nat} (hmissing : missing ≤ n) (hi : i ≠ missing) (secret secret' : G)
    (random : Fin n → G) :
    (split secret' (remask missing (secret - secret') random))[i]? = (split secret random)[i]? := by
  unfold split remask
  rcases lt_trichotomy i n with hlt | rfl | hgt
  · rw [List.getElem?_append_left (by simpa using hlt), List.getElem?_append_left (by simpa using hlt),
      List.getElem?_ofFn, List.getElem?_ofFn, dif_pos hlt, dif_pos hlt]
    split_ifs with h
    · have hne : (⟨i, hlt⟩ : Fin n) ≠ ⟨missing, h⟩ := fun heq => hi (Fin.mk.inj heq)
      simp only [Equiv.coe_addRight, Pi.add_apply, Pi.single_eq_of_ne hne, add_zero]
    · rfl
  · rw [List.getElem?_append_right (by simp), List.getElem?_append_right (by simp), List.length_ofFn, List.length_ofFn,
      Nat.sub_self, List.getElem?_cons_zero, List.getElem?_cons_zero, dif_pos (by omega), Equiv.coe_addRight]
    simp only [Pi.add_apply, Finset.sum_add_distrib, Finset.sum_pi_single', Finset.mem_univ, if_true]
    congr 1
    abel
  · rw [List.getElem?_eq_none (by simp; omega), List.getElem?_eq_none (by simp; omega)]

end Group

/-! ## Byte strings under exclusive or -/

/-- Byte strings of one length. -/
@[ext] structure XorBytes (n : Nat) where
  val : Bytes
  length_val : val.length = n
  deriving DecidableEq

namespace XorBytes
variable {n : Nat}

def xor (a b : XorBytes n) : XorBytes n :=
  ⟨List.zipWith (· ^^^ ·) a.val b.val, by rw [List.length_zipWith, a.length_val, b.length_val, Nat.min_self]⟩

def zero : XorBytes n := ⟨List.replicate n 0, List.length_replicate⟩

theorem ext_get {a b : XorBytes n} (h : ∀ i < n, a.val.getD i 0 = b.val.getD i 0) : a = b := by
  refine XorBytes.ext (List.ext_getElem (a.length_val.trans b.length_val.symm) fun i hi hi' => ?_)
  rw [List.getElem_eq_getD 0, List.getElem_eq_getD 0]
  exact h i (a.length_val ▸ hi)

theorem get_xor (a b : XorBytes n) {i : Nat} (hi : i < n) :
    (xor a b).val.getD i 0 = a.val.getD i 0 ^^^ b.val.getD i 0 := by
  have ha : i < a.val.length := a.length_val.symm ▸ hi
  have hb : i < b.val.length := b.length_val.symm ▸ hi
  have hboth : i < (xor a b).val.length := (xor a b).length_val.symm ▸ hi
  rw [← List.getElem_eq_getD 0 (h := hboth)]
  rw [← List.getElem_eq_getD 0 (h := ha), ← List.getElem_eq_getD 0 (h := hb)]
  exact List.getElem_zipWith

theorem get_zero (i : Nat) : (zero : XorBytes n).val.getD i 0 = 0 := by
  unfold zero
  rw [List.getD_eq_getElem?_getD, List.getElem?_replicate]
  split <;> rfl

instance : Add (XorBytes n) := ⟨xor⟩

instance : Zero (XorBytes n) := ⟨zero⟩

instance : Neg (XorBytes n) := ⟨id⟩

instance : AddCommGroup (XorBytes n) where
  nsmul := nsmulRec
  zsmul := zsmulRec
  add_assoc a b c := ext_get fun i hi => by
    change (xor (xor a b) c).val.getD i 0 = (xor a (xor b c)).val.getD i 0
    simp only [get_xor _ _ hi, UInt8.xor_assoc]
  add_comm a b := ext_get fun i hi => by
    change (xor a b).val.getD i 0 = (xor b a).val.getD i 0
    rw [get_xor _ _ hi, get_xor _ _ hi, UInt8.xor_comm]
  zero_add a := ext_get fun i hi => by
    change (xor zero a).val.getD i 0 = a.val.getD i 0
    rw [get_xor _ _ hi, get_zero, UInt8.zero_xor]
  add_zero a := ext_get fun i hi => by
    change (xor a zero).val.getD i 0 = a.val.getD i 0
    rw [get_xor _ _ hi, get_zero, UInt8.xor_zero]
  neg_add_cancel a := ext_get fun i hi => by
    change (xor a a).val.getD i 0 = (zero : XorBytes n).val.getD i 0
    rw [get_xor _ _ hi, get_zero, UInt8.xor_self]

theorem add_self (a : XorBytes n) : a + a = 0 := neg_add_cancel a

end XorBytes

end Sharing
