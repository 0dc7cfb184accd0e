import Mathlib.Tactic.Common
import Mathlib.Data.List.Basic
import Mathlib.Algebra.Ring.Nat

/-!
# Strings of UTF-16 code units, lowercase hex and decimal numbers
-/

/-- A string as the language has it: any sequence of UTF-16 code units, lone surrogates included. -/
abbrev JsString := List UInt16

abbrev Bytes := List UInt8

-- Fixed here, so that membership is decided by the same instance in every module.
instance lawfulBEqUInt16 : LawfulBEq UInt16 := inferInstance

instance lawfulBEqJsString : LawfulBEq JsString := inferInstance

namespace Text

/-- An ASCII literal. -/
def lit (s : String) : JsString := s.toList.map fun c => UInt16.ofNat c.toNat

/-- What `trim` removes and `\s` matches. -/
def isWhitespace (c : UInt16) : Bool :=
  (9 ≤ c && c ≤ 13) || c = 32 || c = 0xA0 || c = 0x1680 || (0x2000 ≤ c && c ≤ 0x200A) || c = 0x2028 || c = 0x2029 ||
    c = 0x202F || c = 0x205F || c = 0x3000 || c = 0xFEFF

/-! ## Decimal -/

/-- `String(n)` of a non-negative safe integer. -/
def decimal (n : Nat) : JsString := (Nat.toDigits 10 n).map fun c => UInt16.ofNat c.toNat

theorem unit_inj {c d : Char} (hc : c.toNat < 65536) (hd : d.toNat < 65536)
    (h : UInt16.ofNat c.toNat = UInt16.ofNat d.toNat) : c = d := by
  have := congrArg UInt16.toNat h
  rw [UInt16.toNat_ofNat_of_lt' hc, UInt16.toNat_ofNat_of_lt' hd] at this
  exact Char.toNat_inj.mp this

theorem map_unit_inj (l m : List Char) (hl : ∀ c ∈ l, c.toNat < 65536) (hm : ∀ c ∈ m, c.toNat < 65536)
    (h : l.map (fun c => UInt16.ofNat c.toNat) = m.map fun c => UInt16.ofNat c.toNat) : l = m := by
  induction l generalizing m with
  | nil => exact (List.map_eq_nil_iff.mp h.symm).symm
  | cons c rest ih =>
    cases m with
    | nil => simp at h
    | cons d rest' =>
      simp only [List.map_cons, List.cons.injEq] at h
      rw [unit_inj (hl c (by simp)) (hm d (by simp)) h.1,
        ih rest' (fun x hx => hl x (by simp [hx])) (fun x hx => hm x (by simp [hx])) h.2]

theorem digit_toNat (n : Nat) (c : Char) (h : c ∈ Nat.toDigits 10 n) : 48 ≤ c.toNat ∧ c.toNat ≤ 57 := by
  have hd := Nat.isDigit_of_mem_toDigits (by omega) (by omega) h
  simp only [Char.isDigit, Bool.and_eq_true, decide_eq_true_eq, UInt32.le_iff_toNat_le] at hd
  exact hd

theorem decimal_unit (n : Nat) (u : UInt16) (h : u ∈ decimal n) : 48 ≤ u.toNat ∧ u.toNat ≤ 57 := by
  simp only [decimal, List.mem_map] at h
  obtain ⟨c, hc, rfl⟩ := h
  have hd := digit_toNat n c hc
  rw [UInt16.toNat_ofNat_of_lt' (by simp only [UInt16.size]; omega)]
  exact hd

theorem length_decimal_le {n k : Nat} (hk : 0 < k) (h : n < 10 ^ k) : (decimal n).length ≤ k := by
  unfold decimal
  rw [List.length_map]
  exact (Nat.length_toDigits_le_iff (by decide) hk).mpr h

theorem decimal_inj {m n : Nat} (h : decimal m = decimal n) : m = n := by
  have hlt : ∀ k, ∀ c ∈ Nat.toDigits 10 k, c.toNat < 65536 := fun k c hc => by
    have := digit_toNat k c hc; omega
  have hchars := map_unit_inj _ _ (hlt m) (hlt n) h
  rw [← Nat.ofDigitChars_toDigits (b := 10) (n := m) (by omega) (by omega), hchars,
    Nat.ofDigitChars_toDigits (by omega) (by omega)]

theorem ascii_of_all {s : JsString} (h : (s.all fun u => decide (u.toNat < 128)) = true) : ∀ u ∈ s, u.toNat < 128 :=
  fun u hu => of_decide_eq_true (List.all_eq_true.mp h u hu)

/-! ## Hex -/

def hexDigit (n : Nat) : UInt16 := if n < 10 then UInt16.ofNat (48 + n) else UInt16.ofNat (87 + n)

def hexValue? (u : UInt16) : Option Nat :=
  if 48 ≤ u.toNat ∧ u.toNat ≤ 57 then some (u.toNat - 48)
  else if 97 ≤ u.toNat ∧ u.toNat ≤ 102 then some (u.toNat - 87)
  else none

def encodeHex (bytes : Bytes) : JsString :=
  bytes.flatMap fun b => [hexDigit (b.toNat / 16), hexDigit (b.toNat % 16)]

/-- The bytes of a lowercase hex string, or none: an odd length, or a character that is not lowercase hex. -/
def decodeHex : JsString → Option Bytes
  | [] => some []
  | [_] => none
  | u :: v :: rest => do
    let high ← hexValue? u
    let low ← hexValue? v
    let tail ← decodeHex rest
    pure (UInt8.ofNat (16 * high + low) :: tail)

attribute [grind =] decodeHex

theorem hexValue_hexDigit : ∀ n < 16, hexValue? (hexDigit n) = some n := by decide

theorem decodeHex_encodeHex (bytes : Bytes) : decodeHex (encodeHex bytes) = some bytes := by
  induction bytes with
  | nil => rfl
  | cons b rest ih =>
    have hb : b.toNat < 256 := b.toNat_lt
    have hhigh := hexValue_hexDigit (b.toNat / 16) (by omega)
    have hlow := hexValue_hexDigit (b.toNat % 16) (Nat.mod_lt _ (by omega))
    have hsum : 16 * (b.toNat / 16) + b.toNat % 16 = b.toNat := Nat.div_add_mod _ _
    simp only [encodeHex, List.flatMap_cons, List.cons_append, List.nil_append] at ih ⊢
    rw [decodeHex, hhigh, hlow, ih]
    simp only [Option.bind_eq_bind, Option.bind_some, Option.pure_def, hsum, UInt8.ofNat_toNat]

theorem encodeHex_inj {a b : Bytes} (h : encodeHex a = encodeHex b) : a = b := by
  have := congrArg decodeHex h
  simpa [decodeHex_encodeHex] using this

theorem encodeHex_length (bytes : Bytes) : (encodeHex bytes).length = 2 * bytes.length := by
  induction bytes with
  | nil => rfl
  | cons b rest ih =>
    unfold encodeHex at ih ⊢
    rw [List.flatMap_cons, List.length_append, ih, List.length_cons]
    simp
    omega

theorem hexDigit_ascii : ∀ n < 16, (hexDigit n).toNat < 128 := by decide

theorem encodeHex_ascii (bytes : Bytes) (u : UInt16) (h : u ∈ encodeHex bytes) : u.toNat < 128 := by
  simp only [encodeHex, List.mem_flatMap, List.mem_cons, List.not_mem_nil, or_false] at h
  obtain ⟨b, -, rfl | rfl⟩ := h
  · exact hexDigit_ascii _ (by have := b.toNat_lt; omega)
  · exact hexDigit_ascii _ (Nat.mod_lt _ (by omega))

theorem hexValue_ascii (u : UInt16) (n : Nat) (h : hexValue? u = some n) : u.toNat < 128 := by
  unfold hexValue? at h
  split_ifs at h <;> omega

theorem decodeHex_ascii (s : JsString) (bytes : Bytes) (h : decodeHex s = some bytes) :
    ∀ u ∈ s, u.toNat < 128 := by
  induction s using decodeHex.induct generalizing bytes with
  | case1 => simp
  | case2 => simp [decodeHex] at h
  | case3 u v rest ih =>
    simp only [decodeHex, Option.bind_eq_bind, Option.bind_eq_some_iff] at h
    obtain ⟨high, hhigh, low, hlow, tail, htail, -⟩ := h
    intro w hw
    rcases List.mem_cons.mp hw with rfl | hw
    · exact hexValue_ascii _ _ hhigh
    · rcases List.mem_cons.mp hw with rfl | hw
      · exact hexValue_ascii _ _ hlow
      · exact ih tail htail w hw

theorem hexDigit_hexValue {u : UInt16} {n : Nat} (h : hexValue? u = some n) : n < 16 ∧ hexDigit n = u := by
  unfold hexValue? at h
  unfold hexDigit
  split_ifs at h with hdigit hletter
  · obtain rfl := Option.some.inj h
    refine ⟨by omega, ?_⟩
    rw [if_pos (by omega), Nat.add_sub_cancel' hdigit.1, UInt16.ofNat_toNat]
  · obtain rfl := Option.some.inj h
    refine ⟨by omega, ?_⟩
    rw [if_neg (by omega), Nat.add_sub_cancel' (by omega), UInt16.ofNat_toNat]

theorem encodeHex_decodeHex {s : JsString} {bytes : Bytes} (h : decodeHex s = some bytes) : encodeHex bytes = s := by
  induction s using decodeHex.induct generalizing bytes with
  | case1 =>
    cases h
    rfl
  | case2 => simp [decodeHex] at h
  | case3 u v rest ih =>
    simp only [decodeHex, Option.bind_eq_bind, Option.bind_eq_some_iff, Option.pure_def, Option.some.injEq] at h
    obtain ⟨high, hhigh, low, hlow, tail, htail, rfl⟩ := h
    obtain ⟨hhigh16, rfl⟩ := hexDigit_hexValue hhigh
    obtain ⟨hlow16, rfl⟩ := hexDigit_hexValue hlow
    have hbyte : (UInt8.ofNat (16 * high + low)).toNat = 16 * high + low := UInt8.toNat_ofNat_of_lt' (by
      simp only [UInt8.size]
      omega)
    rw [encodeHex, List.flatMap_cons, ← encodeHex, ih htail, hbyte, Nat.mul_add_div (by omega), Nat.div_eq_of_lt hlow16,
      Nat.mul_add_mod, Nat.mod_eq_of_lt hlow16, Nat.add_zero]
    rfl

theorem decodeHex_eq_some_iff {s : JsString} {bytes : Bytes} : decodeHex s = some bytes ↔ s = encodeHex bytes := by
  constructor
  · intro h
    exact (encodeHex_decodeHex h).symm
  · rintro rfl
    exact decodeHex_encodeHex bytes

theorem decodeHex_inj {s t : JsString} {bytes : Bytes} (hs : decodeHex s = some bytes) (ht : decodeHex t = some bytes) :
    s = t := (encodeHex_decodeHex hs).symm.trans (encodeHex_decodeHex ht)

end Text
