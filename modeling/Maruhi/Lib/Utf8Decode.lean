import Maruhi.Lib.Utf8

/-!
# UTF-8 read back, as a fatal `TextDecoder` does

What it takes is the encoding of what it returns, but for a byte order mark in front.
-/

namespace Utf8

/-- What the decoder waits for: how many bytes, the code point so far, the bounds of the next byte. -/
structure Pending where
  needed : Nat
  point : Nat
  lower : Nat
  upper : Nat

def idle : Pending := ⟨0, 0, 0x80, 0xBF⟩

/-- A lead byte. -/
def startSequence (b : Nat) : Option Pending :=
  if 0xC2 ≤ b ∧ b ≤ 0xDF then some ⟨1, b % 0x20, 0x80, 0xBF⟩
  else if 0xE0 ≤ b ∧ b ≤ 0xEF then
    some ⟨2, b % 0x10, if b = 0xE0 then 0xA0 else 0x80, if b = 0xED then 0x9F else 0xBF⟩
  else if 0xF0 ≤ b ∧ b ≤ 0xF4 then
    some ⟨3, b % 0x08, if b = 0xF0 then 0x90 else 0x80, if b = 0xF4 then 0x8F else 0xBF⟩
  else none

/-- None where `fatal` throws. -/
def decodeUtf8 (pending : Pending) : Bytes → Option JsString
  | [] => if pending.needed = 0 then some [] else none
  | byte :: rest =>
    let b := byte.toNat
    if pending.needed = 0 then
      if b < 0x80 then (decodeUtf8 idle rest).map (UInt16.ofNat b :: ·)
      else (startSequence b).bind fun next => decodeUtf8 next rest
    else if b < pending.lower ∨ pending.upper < b then none
    else
      let point := pending.point * 0x40 + b % 0x40
      if pending.needed = 1 then (decodeUtf8 idle rest).map ((Token.scalar point).units ++ ·)
      else decodeUtf8 ⟨pending.needed - 1, point, 0x80, 0xBF⟩ rest

attribute [grind =] decodeUtf8

/-- A byte order mark in front. -/
def isMarked (bytes : Bytes) : Bool := bytes.take 3 = [0xEF, 0xBB, 0xBF]

def withoutMark (bytes : Bytes) : Bytes := if isMarked bytes then bytes.drop 3 else bytes

def textDecode (bytes : Bytes) : Option JsString := decodeUtf8 idle (withoutMark bytes)

theorem withoutMark_eq_iff (bytes : Bytes) : withoutMark bytes = bytes ↔ isMarked bytes = false := by
  unfold withoutMark
  cases hmark : isMarked bytes with
  | false => simp
  | true =>
    have hlength : 3 ≤ bytes.length := by
      have htake := congrArg List.length (of_decide_eq_true hmark)
      rw [List.length_take] at htake
      simp only [List.length_cons, List.length_nil] at htake
      omega
    simp only [if_true, Bool.true_eq_false, iff_false]
    intro hdrop
    have hshorter := congrArg List.length hdrop
    rw [List.length_drop] at hshorter
    omega

/-! ## The bytes of a code point, one after another -/

/-- A code point outside the surrogates. -/
def IsScalar (c : Nat) : Prop := c < 0xD800 ∨ 0xE000 ≤ c ∧ c < 0x110000

/-- The bytes read so far begin the encoding of every code point the pending ones can make. -/
structure Opens (front : Bytes) (pending : Pending) : Prop where
  bounds : 0x80 ≤ pending.lower ∧ pending.upper ≤ 0xBF
  completes : ∀ next : List Nat, next.length = pending.needed → (∀ b ∈ next.head?, pending.lower ≤ b ∧ b ≤ pending.upper) →
    (∀ b ∈ next, 0x80 ≤ b ∧ b ≤ 0xBF) →
    let c := next.foldl (fun point b => point * 0x40 + b % 0x40) pending.point
    encodeCodePoint c = front ++ next.map UInt8.ofNat ∧ IsScalar c

theorem opens_startSequence {b : Nat} {pending : Pending} (h : startSequence b = some pending) :
    1 ≤ pending.needed ∧ Opens [UInt8.ofNat b] pending := by
  unfold startSequence at h
  by_cases h2 : 0xC2 ≤ b ∧ b ≤ 0xDF
  · rw [if_pos h2] at h
    cases h
    refine ⟨Nat.le_refl _, ⟨by simp, fun next hlength _ hnext => ?_⟩⟩
    obtain ⟨x, rfl⟩ := List.length_eq_one_iff.mp hlength
    have hx := hnext x (by simp)
    dsimp only [List.foldl_cons, List.foldl_nil]
    refine ⟨?_, Or.inl (by omega)⟩
    rw [encodeCodePoint, if_neg (by omega), if_pos (by omega)]
    simp only [List.map_cons, List.map_nil, List.cons_append, List.nil_append, List.cons.injEq, and_true]
    exact ⟨congrArg _ (by omega), congrArg _ (by omega)⟩
  rw [if_neg h2] at h
  by_cases h3 : 0xE0 ≤ b ∧ b ≤ 0xEF
  · rw [if_pos h3] at h
    cases h
    refine ⟨by simp, ⟨⟨by dsimp only; split_ifs <;> omega, by dsimp only; split_ifs <;> omega⟩,
      fun next hlength hhead hnext => ?_⟩⟩
    obtain ⟨x, y, rfl⟩ := List.length_eq_two.mp hlength
    have hx := hnext x (by simp)
    have hy := hnext y (by simp)
    have hbound := hhead x rfl
    dsimp only [List.foldl_cons, List.foldl_nil] at hbound ⊢
    have hleast : b = 0xE0 → 0xA0 ≤ x := fun heq => by simpa [heq] using hbound.1
    have hgreatest : b = 0xED → x ≤ 0x9F := fun heq => by simpa [heq] using hbound.2
    refine ⟨?_, by unfold IsScalar; omega⟩
    rw [encodeCodePoint, if_neg (by omega), if_neg (by omega), if_pos (by omega)]
    simp only [List.map_cons, List.map_nil, List.cons_append, List.nil_append, List.cons.injEq, and_true]
    exact ⟨congrArg _ (by omega), congrArg _ (by omega), congrArg _ (by omega)⟩
  rw [if_neg h3, Option.ite_none_right_eq_some] at h
  obtain ⟨h4, h⟩ := h
  cases h
  refine ⟨by simp, ⟨⟨by dsimp only; split_ifs <;> omega, by dsimp only; split_ifs <;> omega⟩,
    fun next hlength hhead hnext => ?_⟩⟩
  obtain ⟨x, y, z, rfl⟩ := List.length_eq_three.mp hlength
  have hx := hnext x (by simp)
  have hy := hnext y (by simp)
  have hz := hnext z (by simp)
  have hbound := hhead x rfl
  dsimp only [List.foldl_cons, List.foldl_nil] at hbound ⊢
  have hleast : b = 0xF0 → 0x90 ≤ x := fun heq => by simpa [heq] using hbound.1
  have hgreatest : b = 0xF4 → x ≤ 0x8F := fun heq => by simpa [heq] using hbound.2
  refine ⟨?_, by unfold IsScalar; omega⟩
  rw [encodeCodePoint, if_neg (by omega), if_neg (by omega), if_neg (by omega)]
  simp only [List.map_cons, List.map_nil, List.cons_append, List.nil_append, List.cons.injEq, and_true]
  exact ⟨congrArg _ (by omega), congrArg _ (by omega), congrArg _ (by omega), congrArg _ (by omega)⟩

theorem opens_next {front : Bytes} {pending : Pending} (h : Opens front pending) {b : UInt8}
    (hb : pending.lower ≤ b.toNat ∧ b.toNat ≤ pending.upper) (hneeded : 2 ≤ pending.needed) :
    Opens (front ++ [b]) ⟨pending.needed - 1, pending.point * 0x40 + b.toNat % 0x40, 0x80, 0xBF⟩ := by
  have hbounds := h.bounds
  refine ⟨by simp, fun next hlength _ hnext => ?_⟩
  have hcompletes := h.completes (b.toNat :: next) (by simp only [List.length_cons] at hlength ⊢; omega)
    (fun x hx => by cases hx; exact hb)
    (List.forall_mem_cons.mpr ⟨⟨by omega, by omega⟩, hnext⟩)
  simpa using hcompletes

theorem opens_last {front : Bytes} {pending : Pending} (h : Opens front pending) {b : UInt8}
    (hb : pending.lower ≤ b.toNat ∧ b.toNat ≤ pending.upper) (hneeded : pending.needed = 1) :
    encodeCodePoint (pending.point * 0x40 + b.toNat % 0x40) = front ++ [b] ∧
      IsScalar (pending.point * 0x40 + b.toNat % 0x40) := by
  have hbounds := h.bounds
  have hcompletes := h.completes [b.toNat] hneeded.symm (fun x hx => by cases hx; exact hb) (by simp; omega)
  simpa using hcompletes

theorem tokens_units {c : Nat} (hc : IsScalar c) (s : JsString) :
    tokens ((Token.scalar c).units ++ s) = .scalar c :: tokens s := by
  rw [Token.units]
  split_ifs with hsmall
  · have hunit : (UInt16.ofNat c).toNat = c := by rw [UInt16.toNat_ofNat']; omega
    have hhigh : isHigh (UInt16.ofNat c) = false := by
      simp only [isHigh, hunit, Bool.and_eq_false_iff, decide_eq_false_iff_not]
      unfold IsScalar at hc
      omega
    have hlow : isLow (UInt16.ofNat c) = false := by
      simp only [isLow, hunit, Bool.and_eq_false_iff, decide_eq_false_iff_not]
      unfold IsScalar at hc
      omega
    have hsingle : single (UInt16.ofNat c) = .scalar c := by simp [single, hhigh, hlow, hunit]
    cases s with
    | nil => simp [tokens, hsingle]
    | cons v rest => simp [tokens, hsingle, hhigh]
  · unfold IsScalar at hc
    have hfirst : (UInt16.ofNat (0xD800 + (c - 0x10000) / 0x400)).toNat = 0xD800 + (c - 0x10000) / 0x400 := by
      rw [UInt16.toNat_ofNat']
      omega
    have hsecond : (UInt16.ofNat (0xDC00 + (c - 0x10000) % 0x400)).toNat = 0xDC00 + (c - 0x10000) % 0x400 := by
      rw [UInt16.toNat_ofNat']
      omega
    have hpair : (isHigh (UInt16.ofNat (0xD800 + (c - 0x10000) / 0x400)) &&
        isLow (UInt16.ofNat (0xDC00 + (c - 0x10000) % 0x400))) = true := by
      simp only [isHigh, isLow, hfirst, hsecond, Bool.and_eq_true, decide_eq_true_eq]
      omega
    have hvalue : 0x10000 + (0xD800 + (c - 0x10000) / 0x400 - 0xD800) * 0x400 +
        (0xDC00 + (c - 0x10000) % 0x400 - 0xDC00) = c := by omega
    rw [List.cons_append, List.cons_append, List.nil_append, tokens, if_pos hpair, hfirst, hsecond, hvalue]

theorem utf8Encode_units {c : Nat} (hc : IsScalar c) (s : JsString) :
    utf8Encode ((Token.scalar c).units ++ s) = encodeCodePoint c ++ utf8Encode s := by
  simp only [utf8Encode, codePoints, tokens_units hc, List.map_cons, List.flatMap_cons, Token.codePoint]

theorem utf8Encode_decodeUtf8 {pending : Pending} {front bytes : Bytes} {text : JsString}
    (hfront : if pending.needed = 0 then front = [] else Opens front pending)
    (h : decodeUtf8 pending bytes = some text) : utf8Encode text = front ++ bytes := by
  have hidle : if idle.needed = 0 then ([] : Bytes) = [] else Opens [] idle := rfl
  induction bytes generalizing pending front text with
  | nil =>
    rw [decodeUtf8, Option.ite_none_right_eq_some] at h
    obtain ⟨hneeded, h⟩ := h
    cases h
    rw [if_pos hneeded] at hfront
    rw [hfront]
    rfl
  | cons b rest ih =>
    rw [decodeUtf8] at h
    dsimp only at h
    by_cases hneeded : pending.needed = 0
    · rw [if_pos hneeded] at h hfront
      subst hfront
      by_cases hascii : b.toNat < 0x80
      · rw [if_pos hascii, Option.map_eq_some_iff] at h
        obtain ⟨tail, htail, rfl⟩ := h
        have hunits := utf8Encode_units (c := b.toNat) (Or.inl (by omega)) tail
        rw [Token.units, if_pos (by omega), encodeCodePoint, if_pos hascii, UInt8.ofNat_toNat,
          ih hidle htail] at hunits
        exact hunits
      · rw [if_neg hascii, Option.bind_eq_some_iff] at h
        obtain ⟨next, hnext, h⟩ := h
        obtain ⟨hone, hopens⟩ := opens_startSequence hnext
        rw [UInt8.ofNat_toNat] at hopens
        exact ih (by rw [if_neg (by omega)]; exact hopens) h
    · rw [if_neg hneeded] at h hfront
      rw [Option.ite_none_left_eq_some, not_or, Nat.not_lt, Nat.not_lt] at h
      obtain ⟨hb, h⟩ := h
      by_cases hlast : pending.needed = 1
      · rw [if_pos hlast, Option.map_eq_some_iff] at h
        obtain ⟨tail, htail, rfl⟩ := h
        obtain ⟨hencode, hscalar⟩ := opens_last hfront hb hlast
        rw [utf8Encode_units hscalar, hencode, ih hidle htail]
        simp
      · rw [if_neg hlast] at h
        have hopens := opens_next hfront hb (by omega)
        rw [ih (by rw [if_neg (by dsimp only; omega)]; exact hopens) h]
        simp

theorem utf8Encode_textDecode {bytes : Bytes} {text : JsString} (h : textDecode bytes = some text) :
    utf8Encode text = withoutMark bytes := by
  have hidle : if idle.needed = 0 then ([] : Bytes) = [] else Opens [] idle := rfl
  exact utf8Encode_decodeUtf8 hidle h

end Utf8
