import Maruhi.Lib.Framing
import Mathlib.Data.List.DropRight

/-!
# Base64 (`btoa`, `atob`)

Bytes written four units for every three, with padding, and read back as `atob` reads them: spaces and the
padding may be missing.
-/

open Text

namespace Base64

def digit (n : Nat) : UInt16 :=
  if n < 26 then UInt16.ofNat (65 + n)
  else if n < 52 then UInt16.ofNat (71 + n)
  else if n < 62 then UInt16.ofNat (n - 4)
  else if n = 62 then 43
  else 47

def value? (u : UInt16) : Option Nat :=
  if 65 ≤ u.toNat ∧ u.toNat ≤ 90 then some (u.toNat - 65)
  else if 97 ≤ u.toNat ∧ u.toNat ≤ 122 then some (u.toNat - 71)
  else if 48 ≤ u.toNat ∧ u.toNat ≤ 57 then some (u.toNat + 4)
  else if u = 43 then some 62
  else if u = 47 then some 63
  else none

/-- The six-bit digits of the bytes. -/
def digits : Bytes → List Nat
  | [] => []
  | [a] => [a.toNat / 4, a.toNat % 4 * 16]
  | [a, b] => [a.toNat / 4, a.toNat % 4 * 16 + b.toNat / 16, b.toNat % 16 * 4]
  | a :: b :: c :: rest =>
    a.toNat / 4 :: (a.toNat % 4 * 16 + b.toNat / 16) :: (b.toNat % 16 * 4 + c.toNat / 64) :: c.toNat % 64 :: digits rest

attribute [grind =] digits

/-- The bytes of the digits. Bits that fill no byte are dropped, and one digit alone is refused. -/
def bytesOf : List Nat → Option Bytes
  | [] => some []
  | [_] => none
  | [a, b] => some [UInt8.ofNat (a * 4 + b / 16)]
  | [a, b, c] => some [UInt8.ofNat (a * 4 + b / 16), UInt8.ofNat (b % 16 * 16 + c / 4)]
  | a :: b :: c :: d :: rest =>
    (bytesOf rest).map fun bytes =>
      UInt8.ofNat (a * 4 + b / 16) :: UInt8.ofNat (b % 16 * 16 + c / 4) :: UInt8.ofNat (c % 4 * 64 + d) :: bytes

attribute [grind =] bytesOf

/-- `=` up to a multiple of four. -/
def padding (count : Nat) : JsString := List.replicate ((4 - count % 4) % 4) 61

def btoa (bytes : Bytes) : JsString := (digits bytes).map digit ++ padding (digits bytes).length

def isSpace (u : UInt16) : Bool := u = 9 || u = 10 || u = 12 || u = 13 || u = 32

/-- One `=` at the end, if there is one. -/
def dropPad (s : JsString) : JsString := if s.getLast? = some 61 then s.dropLast else s

/-- None where it throws. -/
def atob (text : JsString) : Option Bytes := do
  let s := text.filter fun u => !isSpace u
  let s := if s.length % 4 = 0 then dropPad (dropPad s) else s
  bytesOf (← s.mapM value?)

/-! ## What is written is read back -/

theorem value?_digit : ∀ n < 64, value? (digit n) = some n := by decide

theorem digit_plain : ∀ n < 64, isSpace (digit n) = false ∧ digit n ≠ 61 := by decide

theorem digits_lt (bytes : Bytes) : ∀ n ∈ digits bytes, n < 64 := by
  have hbyte : ∀ b : UInt8, b.toNat < 256 := fun b => b.toNat_lt
  induction bytes using digits.induct with
  | case1 => simp [digits]
  | case2 a =>
    have := hbyte a
    simp only [digits, List.mem_cons, List.not_mem_nil, or_false]
    omega
  | case3 a b =>
    have := hbyte a
    have := hbyte b
    simp only [digits, List.mem_cons, List.not_mem_nil, or_false]
    omega
  | case4 a b c rest ih =>
    have := hbyte a
    have := hbyte b
    have := hbyte c
    intro n hn
    simp only [digits, List.mem_cons] at hn
    rcases hn with rfl | rfl | rfl | rfl | hn
    · omega
    · omega
    · omega
    · omega
    · exact ih n hn

theorem bytesOf_digits (bytes : Bytes) : bytesOf (digits bytes) = some bytes := by
  have hbyte : ∀ (b : UInt8) (n : Nat), n = b.toNat → UInt8.ofNat n = b := by
    rintro b n rfl
    exact UInt8.ofNat_toNat
  induction bytes using digits.induct with
  | case1 => rfl
  | case2 a =>
    have := a.toNat_lt
    rw [digits, bytesOf, hbyte a _ (by omega)]
  | case3 a b =>
    have := a.toNat_lt
    have := b.toNat_lt
    rw [digits, bytesOf, hbyte a _ (by omega), hbyte b _ (by omega)]
  | case4 a b c rest ih =>
    have := a.toNat_lt
    have := b.toNat_lt
    have := c.toNat_lt
    rw [digits, bytesOf, ih, hbyte a _ (by omega), hbyte b _ (by omega), hbyte c _ (by omega)]
    rfl

theorem length_digits (bytes : Bytes) : (digits bytes).length % 4 ≠ 1 := by
  induction bytes using digits.induct with
  | case1 => simp [digits]
  | case2 a => simp [digits]
  | case3 a b => simp [digits]
  | case4 a b c rest ih =>
    simp only [digits, List.length_cons]
    omega

theorem dropPad_append (s : JsString) : dropPad (s ++ [61]) = s := by
  simp [dropPad]

theorem dropPad_plain {s : JsString} (h : ∀ u ∈ s, u ≠ 61) : dropPad s = s := by
  refine if_neg fun hlast => ?_
  exact h 61 (List.mem_of_getLast? hlast) rfl

theorem dropPad_padding {s : JsString} (h : ∀ u ∈ s, u ≠ 61) (hlength : s.length % 4 ≠ 1) :
    dropPad (dropPad (s ++ padding s.length)) = s := by
  unfold padding
  have hcases : s.length % 4 = 0 ∨ s.length % 4 = 2 ∨ s.length % 4 = 3 := by omega
  rcases hcases with hmod | hmod | hmod <;> rw [hmod]
  · simp [dropPad_plain h]
  · rw [show List.replicate ((4 - 2) % 4) (61 : UInt16) = [61] ++ [61] from rfl, ← List.append_assoc, dropPad_append,
      dropPad_append]
  · rw [show List.replicate ((4 - 3) % 4) (61 : UInt16) = [61] from rfl, dropPad_append, dropPad_plain h]

theorem atob_btoa (bytes : Bytes) : atob (btoa bytes) = some bytes := by
  have hplain : ∀ u ∈ (digits bytes).map digit, isSpace u = false ∧ u ≠ 61 := by
    intro u hu
    obtain ⟨n, hn, rfl⟩ := List.mem_map.mp hu
    exact digit_plain n (digits_lt bytes n hn)
  have hfilter : (btoa bytes).filter (fun u => !isSpace u) = btoa bytes := by
    refine List.filter_eq_self.mpr fun u hu => ?_
    rcases List.mem_append.mp hu with hu | hu
    · simp [(hplain u hu).1]
    · rw [List.eq_of_mem_replicate hu]
      rfl
  have hlength : (btoa bytes).length % 4 = 0 := by
    simp only [btoa, padding, List.length_append, List.length_map, List.length_replicate]
    omega
  have hpad : dropPad (dropPad (btoa bytes)) = (digits bytes).map digit := by
    have := dropPad_padding (fun u hu => (hplain u hu).2) (by rw [List.length_map]; exact length_digits bytes)
    rwa [List.length_map] at this
  have hvalues : ((digits bytes).map digit).mapM value? = some (digits bytes) := by
    rw [Framing.mapM_eq_some, List.forall₂_map_left_iff, List.forall₂_same]
    exact fun n hn => value?_digit n (digits_lt bytes n hn)
  unfold atob
  simp only [hfilter, hlength, if_pos, hpad, hvalues, Option.bind_eq_bind, Option.bind_some]
  exact bytesOf_digits bytes

/-! ## What is read is what is written -/

def isPad (u : UInt16) : Bool := u = 61

/-- The alphabet, and two `=` at most at the end. -/
def plainShape (text : JsString) : Bool :=
  (text.rtakeWhile isPad).length ≤ 2 && (text.rdropWhile isPad).all fun u => (value? u).isSome

theorem exists_body {text : JsString} (h : plainShape text = true) :
    ∃ body p, text = body ++ List.replicate p 61 ∧ p ≤ 2 ∧ ∀ u ∈ body, (value? u).isSome = true := by
  simp only [plainShape, Bool.and_eq_true, decide_eq_true_eq, List.all_eq_true] at h
  refine ⟨_, _, ?_, h.1, h.2⟩
  have hpads : text.rtakeWhile isPad = List.replicate (text.rtakeWhile isPad).length 61 :=
    List.eq_replicate_of_mem fun u hu => by
      have hpad := List.mem_rtakeWhile_imp hu
      exact of_decide_eq_true hpad
  rw [← hpads, List.rdropWhile_append_rtakeWhile]

theorem digit_of_value? {u : UInt16} {n : Nat} (h : value? u = some n) : n < 64 ∧ digit n = u := by
  have hback : ∀ m, m = u.toNat → UInt16.ofNat m = u := by
    rintro m rfl
    exact UInt16.ofNat_toNat
  unfold value? at h
  split_ifs at h with hupper hlower hdigit hplus hslash <;> cases h
  · refine ⟨by omega, ?_⟩
    rw [digit, if_pos (by omega)]
    exact hback _ (by omega)
  · refine ⟨by omega, ?_⟩
    rw [digit, if_neg (by omega), if_pos (by omega)]
    exact hback _ (by omega)
  · refine ⟨by omega, ?_⟩
    rw [digit, if_neg (by omega), if_neg (by omega), if_pos (by omega)]
    exact hback _ (by omega)
  · exact ⟨by decide, hplus.symm⟩
  · exact ⟨by decide, hslash.symm⟩

theorem value?_plain {u : UInt16} (h : (value? u).isSome = true) : isSpace u = false ∧ u ≠ 61 := by
  obtain ⟨n, hn⟩ := Option.isSome_iff_exists.mp h
  obtain ⟨hlt, rfl⟩ := digit_of_value? hn
  exact digit_plain n hlt

theorem map_digit_of_mapM {body : JsString} {ns : List Nat} (h : body.mapM value? = some ns) :
    ns.map digit = body ∧ ∀ n ∈ ns, n < 64 := by
  have hforall := Framing.mapM_eq_some.mp h
  induction hforall with
  | nil => exact ⟨rfl, by simp⟩
  | @cons u n body ns hu _ ih =>
    obtain ⟨hlt, hdigit⟩ := digit_of_value? hu
    obtain ⟨hmap, hall⟩ := ih (Framing.mapM_eq_some.mpr ‹_›)
    exact ⟨by rw [List.map_cons, hdigit, hmap], List.forall_mem_cons.mpr ⟨hlt, hall⟩⟩

theorem length_bytesOf {ns : List Nat} {bytes : Bytes} (h : bytesOf ns = some bytes) :
    bytes.length = 3 * (ns.length / 4) + (ns.length % 4 - 1) := by
  induction ns using bytesOf.induct generalizing bytes with
  | case1 => cases h; rfl
  | case2 => cases h
  | case3 a b => cases h; simp
  | case4 a b c => cases h; simp
  | case5 a b c d rest ih =>
    obtain ⟨tail, htail, rfl⟩ := Option.map_eq_some_iff.mp h
    have := ih htail
    simp only [List.length_cons]
    omega

theorem digits_bytesOf {ns : List Nat} {bytes : Bytes} (hfull : ns.length % 4 = 0) (hlt : ∀ n ∈ ns, n < 64)
    (h : bytesOf ns = some bytes) : digits bytes = ns := by
  have hbyte : ∀ n, n < 256 → (UInt8.ofNat n).toNat = n := fun n hn => UInt8.toNat_ofNat_of_lt' hn
  induction ns using bytesOf.induct generalizing bytes with
  | case1 => cases h; rfl
  | case2 => cases h
  | case3 a b => simp at hfull
  | case4 a b c => simp at hfull
  | case5 a b c d rest ih =>
    obtain ⟨tail, htail, rfl⟩ := Option.map_eq_some_iff.mp h
    simp only [List.forall_mem_cons] at hlt
    obtain ⟨ha, hb, hc, hd, hrest⟩ := hlt
    rw [digits, hbyte _ (by omega), hbyte _ (by omega), hbyte _ (by omega),
      ih (by simp only [List.length_cons] at hfull; omega) hrest htail]
    simp only [List.cons.injEq, and_true]
    omega

theorem dropPad_body {body : JsString} {p : Nat} (hp : p ≤ 2) (hbody : ∀ u ∈ body, (value? u).isSome = true) :
    dropPad (dropPad (body ++ List.replicate p 61)) = body := by
  have hplain : dropPad body = body := dropPad_plain fun u hu => (value?_plain (hbody u hu)).2
  obtain rfl | rfl | rfl : p = 0 ∨ p = 1 ∨ p = 2 := by omega
  · rw [List.replicate_zero, List.append_nil, hplain, hplain]
  · rw [List.replicate_one, dropPad_append, hplain]
  · rw [List.replicate_succ, List.replicate_one, ← List.singleton_append, ← List.append_assoc, dropPad_append, dropPad_append]

theorem length_btoa (bytes : Bytes) : (btoa bytes).length = 4 * ((bytes.length + 2) / 3) := by
  have hdigits : (digits bytes).length = (4 * bytes.length + 2) / 3 := by
    induction bytes using digits.induct with
    | case1 => rfl
    | case2 a => simp [digits]
    | case3 a b => simp [digits]
    | case4 a b c rest ih =>
      simp only [digits, List.length_cons, ih]
      omega
  unfold btoa padding
  rw [List.length_append, List.length_map, List.length_replicate, hdigits]
  omega

theorem plainShape_btoa (bytes : Bytes) : plainShape (btoa bytes) = true ∧ ∀ u ∈ btoa bytes, (value? u).isSome = true ∨ u = 61 := by
  have hbody : ∀ u ∈ (digits bytes).map digit, (value? u).isSome = true := by
    intro u hu
    obtain ⟨n, hn, rfl⟩ := List.mem_map.mp hu
    rw [value?_digit n (digits_lt bytes n hn)]
    rfl
  have hcut : ∀ p, ((digits bytes).map digit ++ List.replicate p 61).rdropWhile isPad = (digits bytes).map digit := by
    intro p
    induction p with
    | zero =>
      rw [List.replicate_zero, List.append_nil, List.rdropWhile_eq_self_iff]
      intro hne hpad
      exact (value?_plain (hbody _ (List.getLast_mem hne))).2 (of_decide_eq_true hpad)
    | succ p ih => rw [List.replicate_succ', ← List.append_assoc, List.rdropWhile_concat_pos _ _ _ (by decide), ih]
  have hmod := length_digits bytes
  unfold btoa padding
  constructor
  · have hsplit := List.rdropWhile_append_rtakeWhile (p := isPad)
      (l := (digits bytes).map digit ++ List.replicate ((4 - (digits bytes).length % 4) % 4) 61)
    rw [hcut, List.append_right_inj] at hsplit
    simp only [plainShape, hcut, hsplit, List.length_replicate, Bool.and_eq_true, decide_eq_true_eq, List.all_eq_true]
    exact ⟨by omega, hbody⟩
  · intro u hu
    rcases List.mem_append.mp hu with hu | hu
    · exact Or.inl (hbody u hu)
    · exact Or.inr (List.eq_of_mem_replicate hu)

/-- A text that is decoded to the whole of it is the only one for its bytes. -/
theorem btoa_of_atob {text : JsString} {bytes : Bytes} (hshape : plainShape text = true) (hlength : text.length % 4 = 0)
    (h : atob text = some bytes) (hfull : 4 * bytes.length = 3 * text.length) : text = btoa bytes := by
  obtain ⟨body, p, rfl, hp, hbody⟩ := exists_body hshape
  have hfilter : (body ++ List.replicate p 61).filter (fun u => !isSpace u) = body ++ List.replicate p 61 := by
    refine List.filter_eq_self.mpr fun u hu => ?_
    rcases List.mem_append.mp hu with hu | hu
    · rw [(value?_plain (hbody u hu)).1]
      rfl
    · rw [List.eq_of_mem_replicate hu]
      rfl
  unfold atob at h
  simp only [hfilter, hlength, if_pos, dropPad_body hp hbody, Option.bind_eq_bind, Option.bind_eq_some_iff] at h
  obtain ⟨ns, hns, hbytes⟩ := h
  obtain ⟨hmap, hlt⟩ := map_digit_of_mapM hns
  have hcount := congrArg List.length hmap
  have hsize := length_bytesOf hbytes
  rw [List.length_map] at hcount
  rw [List.length_append, List.length_replicate] at hlength hfull
  -- A padded text has fewer bytes than three for every four characters.
  obtain rfl : p = 0 := by omega
  have hdigits := digits_bytesOf (by omega) hlt hbytes
  unfold btoa padding
  rw [hdigits, hmap, show (4 - ns.length % 4) % 4 = 0 by omega]

example : btoa [77, 97] = lit "TWE=" := by decide

end Base64
