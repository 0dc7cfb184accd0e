import Maruhi.Lib.Text
import Mathlib.Data.List.Lex
import Mathlib.Order.Lattice

/-!
# Comparing strings

`<` on strings compares code units, the first difference deciding, and on bytes it does the same.
-/

instance linearOrderUInt16 : LinearOrder UInt16 where
  le_refl _ := Nat.le_refl _
  le_trans _ _ _ h h' := Nat.le_trans h h'
  le_antisymm _ _ h h' := UInt16.toNat_inj.mp (Nat.le_antisymm h h')
  le_total a b := Nat.le_total a.toNat b.toNat
  lt_iff_le_not_ge a b := lt_iff_le_not_ge (a := a.toNat) (b := b.toNat)
  toDecidableLE := inferInstance
  toDecidableEq := inferInstance
  toDecidableLT := inferInstance

instance linearOrderUInt8 : LinearOrder UInt8 where
  le_refl _ := Nat.le_refl _
  le_trans _ _ _ h h' := Nat.le_trans h h'
  le_antisymm _ _ h h' := UInt8.toNat_inj.mp (Nat.le_antisymm h h')
  le_total a b := Nat.le_total a.toNat b.toNat
  lt_iff_le_not_ge a b := lt_iff_le_not_ge (a := a.toNat) (b := b.toNat)
  toDecidableLE := inferInstance
  toDecidableEq := inferInstance
  toDecidableLT := inferInstance

example : Text.lit "0a" < Text.lit "0b" ∧ Text.lit "0" < Text.lit "0a" := by decide
