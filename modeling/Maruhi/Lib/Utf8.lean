import Maruhi.Lib.Text

/-!
# UTF-8 of UTF-16 strings, as `TextEncoder` writes it

A surrogate without its partner becomes U+FFFD, so the encoder forgets something exactly on
the strings that hold such a surrogate or U+FFFD itself.
-/

namespace Utf8

def isHigh (u : UInt16) : Bool := 0xD800 ≤ u.toNat && u.toNat ≤ 0xDBFF

def isLow (u : UInt16) : Bool := 0xDC00 ≤ u.toNat && u.toNat ≤ 0xDFFF

/-- What the encoder reads at one position: a code point, or a surrogate without a partner. -/
inductive Token
  | scalar (c : Nat)
  | lone (u : UInt16)

def single (u : UInt16) : Token := if isHigh u || isLow u then .lone u else .scalar u.toNat

def tokens : JsString → List Token
  | [] => []
  | [u] => [single u]
  | u :: v :: rest =>
    if isHigh u && isLow v then
      .scalar (0x10000 + (u.toNat - 0xD800) * 0x400 + (v.toNat - 0xDC00)) :: tokens rest
    else single u :: tokens (v :: rest)

attribute [grind =] tokens

def Token.codePoint : Token → Nat
  | .scalar c => c
  | .lone _ => 0xFFFD

def codePoints (s : JsString) : List Nat := (tokens s).map Token.codePoint

def encodeCodePoint (c : Nat) : Bytes :=
  if c < 0x80 then [UInt8.ofNat c]
  else if c < 0x800 then [UInt8.ofNat (0xC0 + c / 0x40), UInt8.ofNat (0x80 + c % 0x40)]
  else if c < 0x10000 then
    [UInt8.ofNat (0xE0 + c / 0x1000), UInt8.ofNat (0x80 + c / 0x40 % 0x40), UInt8.ofNat (0x80 + c % 0x40)]
  else
    [UInt8.ofNat (0xF0 + c / 0x40000), UInt8.ofNat (0x80 + c / 0x1000 % 0x40),
      UInt8.ofNat (0x80 + c / 0x40 % 0x40), UInt8.ofNat (0x80 + c % 0x40)]

def utf8Encode (s : JsString) : Bytes := (codePoints s).flatMap encodeCodePoint

/-! ## The tokens hold the whole string -/

def Token.units : Token → JsString
  | .scalar c =>
    if c < 0x10000 then [UInt16.ofNat c]
    else [UInt16.ofNat (0xD800 + (c - 0x10000) / 0x400), UInt16.ofNat (0xDC00 + (c - 0x10000) % 0x400)]
  | .lone u => [u]

theorem units_single (u : UInt16) : (single u).units = [u] := by
  have hu := u.toNat_lt
  unfold single
  split_ifs <;> simp [Token.units, hu]

theorem units_pair (u v : UInt16) (hu : isHigh u = true) (hv : isLow v = true) :
    (Token.scalar (0x10000 + (u.toNat - 0xD800) * 0x400 + (v.toNat - 0xDC00))).units = [u, v] := by
  simp only [isHigh, isLow, Bool.and_eq_true, decide_eq_true_eq] at hu hv
  have h1 : 0xD800 + (0x10000 + (u.toNat - 0xD800) * 0x400 + (v.toNat - 0xDC00) - 0x10000) / 0x400 = u.toNat := by
    omega
  have h2 : 0xDC00 + (0x10000 + (u.toNat - 0xD800) * 0x400 + (v.toNat - 0xDC00) - 0x10000) % 0x400 = v.toNat := by
    omega
  rw [Token.units, if_neg (by omega), h1, h2, UInt16.ofNat_toNat, UInt16.ofNat_toNat]

theorem units_tokens (s : JsString) : (tokens s).flatMap Token.units = s := by
  induction s using tokens.induct with
  | case1 => rfl
  | case2 u => simp [tokens, units_single]
  | case3 u v rest h ih =>
    have hb := Bool.and_eq_true_iff.mp h
    rw [tokens, if_pos h, List.flatMap_cons, units_pair u v hb.1 hb.2, ih]
    rfl
  | case4 u v rest h ih =>
    rw [tokens, if_neg h, List.flatMap_cons, units_single, ih]
    rfl

theorem tokens_inj {s t : JsString} (h : tokens s = tokens t) : s = t := by
  rw [← units_tokens s, h, units_tokens]

/-- What a loop over a string goes through: a pair of surrogates at once, any other code unit by itself. -/
def characters (s : JsString) : List JsString := (tokens s).map Token.units

theorem flatten_characters (s : JsString) : (characters s).flatten = s := by
  rw [characters, ← List.flatMap_def, units_tokens]

theorem characters_cases {s t : JsString} (h : t ∈ characters s) :
    (∃ u, t = [u]) ∨ ∃ u v, t = [u, v] ∧ isHigh u = true := by
  unfold characters at h
  induction s using tokens.induct with
  | case1 => cases h
  | case2 u =>
    rw [tokens, List.map_singleton, List.mem_singleton, units_single] at h
    exact Or.inl ⟨u, h⟩
  | case3 u v rest hpair ih =>
    have hb := Bool.and_eq_true_iff.mp hpair
    rw [tokens, if_pos hpair, List.map_cons, units_pair u v hb.1 hb.2] at h
    rcases List.mem_cons.mp h with rfl | h
    · exact Or.inr ⟨u, v, rfl, hb.1⟩
    · exact ih h
  | case4 u v rest hpair ih =>
    rw [tokens, if_neg hpair, List.map_cons, units_single] at h
    rcases List.mem_cons.mp h with rfl | h
    · exact Or.inl ⟨u, rfl⟩
    · exact ih h

/-! ## The bytes hold the code points -/

theorem codePoint_lt (s : JsString) (c : Nat) (h : c ∈ codePoints s) : c < 0x110000 := by
  have hsingle : ∀ u : UInt16, (single u).codePoint < 0x110000 := by
    intro u
    have hu := u.toNat_lt
    unfold single
    split_ifs <;> simp only [Token.codePoint] <;> omega
  induction s using tokens.induct with
  | case1 => simp [codePoints, tokens] at h
  | case2 u =>
    simp only [codePoints, tokens, List.map_cons, List.map_nil, List.mem_singleton] at h
    exact h ▸ hsingle u
  | case3 u v rest hp ih =>
    have hb := Bool.and_eq_true_iff.mp hp
    simp only [isHigh, isLow, Bool.and_eq_true, decide_eq_true_eq] at hb
    rw [codePoints, tokens, if_pos hp, List.map_cons, List.mem_cons] at h
    rcases h with h | h
    · rw [h]; simp only [Token.codePoint]; omega
    · exact ih h
  | case4 u v rest hp ih =>
    rw [codePoints, tokens, if_neg hp, List.map_cons, List.mem_cons] at h
    rcases h with rfl | h
    · exact hsingle u
    · exact ih h

theorem byte_inj {m n : Nat} (h : UInt8.ofNat m = UInt8.ofNat n) : m % 256 = n % 256 := by
  have := congrArg UInt8.toNat h
  simpa only [UInt8.toNat_ofNat'] using this

/-- No code point's bytes start another's: a code point is read back off the front. -/
theorem encodeCodePoint_append_inj {c d : Nat} (hc : c < 0x110000) (hd : d < 0x110000) {r r' : Bytes}
    (h : encodeCodePoint c ++ r = encodeCodePoint d ++ r') : c = d ∧ r = r' := by
  unfold encodeCodePoint at h
  split_ifs at h <;>
    simp only [List.cons_append, List.nil_append, List.cons.injEq] at h <;>
    have h1 := byte_inj h.1
  -- The first byte settles which of the four lengths it is.
  all_goals try (exfalso; omega)
  · exact ⟨by omega, h.2⟩
  · have h2 := byte_inj h.2.1
    exact ⟨by omega, h.2.2⟩
  · have h2 := byte_inj h.2.1
    have h3 := byte_inj h.2.2.1
    exact ⟨by omega, h.2.2.2⟩
  · have h2 := byte_inj h.2.1
    have h3 := byte_inj h.2.2.1
    have h4 := byte_inj h.2.2.2.1
    exact ⟨by omega, h.2.2.2.2⟩

theorem encodeCodePoint_ne_nil (c : Nat) : encodeCodePoint c ≠ [] := by
  unfold encodeCodePoint
  split_ifs <;> simp

theorem flatMap_encodeCodePoint_inj (l m : List Nat) (hl : ∀ c ∈ l, c < 0x110000) (hm : ∀ c ∈ m, c < 0x110000)
    (h : l.flatMap encodeCodePoint = m.flatMap encodeCodePoint) : l = m := by
  induction l generalizing m with
  | nil =>
    cases m with
    | nil => rfl
    | cons d rest => simp [encodeCodePoint_ne_nil] at h
  | cons c rest ih =>
    cases m with
    | nil => simp [encodeCodePoint_ne_nil] at h
    | cons d rest' =>
      rw [List.flatMap_cons, List.flatMap_cons] at h
      obtain ⟨rfl, hrest⟩ := encodeCodePoint_append_inj (hl c (by simp)) (hm d (by simp)) h
      rw [ih rest' (fun x hx => hl x (by simp [hx])) (fun x hx => hm x (by simp [hx])) hrest]

theorem codePoints_eq_of_utf8Encode {s t : JsString} (h : utf8Encode s = utf8Encode t) :
    codePoints s = codePoints t :=
  flatMap_encodeCodePoint_inj _ _ (codePoint_lt s) (codePoint_lt t) h

/-! ## ASCII -/

theorem codePoints_ascii (s : JsString) (h : ∀ u ∈ s, u.toNat < 0x80) : codePoints s = s.map UInt16.toNat := by
  have hsingle : ∀ u : UInt16, u.toNat < 0x80 → single u = .scalar u.toNat := by
    intro u hu
    have hhigh : isHigh u = false := by simp only [isHigh, Bool.and_eq_false_iff, decide_eq_false_iff_not]; omega
    have hlow : isLow u = false := by simp only [isLow, Bool.and_eq_false_iff, decide_eq_false_iff_not]; omega
    simp [single, hhigh, hlow]
  induction s using tokens.induct with
  | case1 => rfl
  | case2 u => simp [codePoints, tokens, hsingle u (h u (by simp)), Token.codePoint]
  | case3 u v rest hp ih =>
    have hu := h u (by simp)
    have hb := (Bool.and_eq_true_iff.mp hp).1
    simp only [isHigh, Bool.and_eq_true, decide_eq_true_eq] at hb
    omega
  | case4 u v rest hp ih =>
    have htail := ih fun w hw => h w (by simp only [List.mem_cons] at hw ⊢; exact Or.inr hw)
    rw [codePoints, tokens, if_neg hp, List.map_cons, hsingle u (h u (by simp)), List.map_cons]
    rw [codePoints] at htail
    rw [htail]
    rfl

theorem characters_ascii (s : JsString) (h : ∀ u ∈ s, u.toNat < 0x80) : characters s = s.map fun u => [u] := by
  unfold characters
  induction s using tokens.induct with
  | case1 => rfl
  | case2 u => rw [tokens, List.map_singleton, units_single, List.map_singleton]
  | case3 u v rest hp ih =>
    have hu := h u (by simp)
    have hb := (Bool.and_eq_true_iff.mp hp).1
    simp only [isHigh, Bool.and_eq_true, decide_eq_true_eq] at hb
    omega
  | case4 u v rest hp ih =>
    rw [tokens, if_neg hp, List.map_cons, units_single, ih fun w hw => h w (List.mem_cons_of_mem _ hw)]
    rfl

theorem length_utf8Encode_ascii (s : JsString) (h : ∀ u ∈ s, u.toNat < 0x80) :
    (utf8Encode s).length = s.length := by
  rw [utf8Encode, codePoints_ascii s h]
  induction s with
  | nil => rfl
  | cons u rest ih =>
    have hu := h u (by simp)
    rw [List.map_cons, List.flatMap_cons, List.length_append, ih fun w hw => h w (by simp [hw]), encodeCodePoint,
      if_pos hu, List.length_cons, List.length_cons, List.length_nil]
    omega

theorem length_utf8Encode_le (s : JsString) : (utf8Encode s).length ≤ 3 * s.length := by
  have hfour : ∀ c, (encodeCodePoint c).length ≤ 4 := by
    intro c
    unfold encodeCodePoint
    split_ifs <;> simp
  have hthree : ∀ u, (encodeCodePoint (single u).codePoint).length ≤ 3 := by
    intro u
    have hlt : (single u).codePoint < 0x10000 := by
      have hu := u.toNat_lt
      unfold single
      split_ifs <;> simp only [Token.codePoint] <;> omega
    unfold encodeCodePoint
    split_ifs <;> simp
  unfold utf8Encode codePoints
  induction s using tokens.induct with
  | case1 => simp [tokens]
  | case2 u => simpa [tokens] using hthree u
  | case3 u v rest hpair ih =>
    rw [tokens, if_pos hpair, List.map_cons, List.flatMap_cons, List.length_append]
    have := hfour (Token.scalar (0x10000 + (u.toNat - 0xd800) * 0x400 + (v.toNat - 0xdc00))).codePoint
    simp only [List.length_cons]
    omega
  | case4 u v rest hpair ih =>
    rw [tokens, if_neg hpair, List.map_cons, List.flatMap_cons, List.length_append]
    have := hthree u
    simp only [List.length_cons] at ih ⊢
    omega

/-! ## Strings put together -/

theorem tokens_append {s t : JsString} (h : ∀ u ∈ t.head?, isLow u = false) : tokens (s ++ t) = tokens s ++ tokens t := by
  induction s using tokens.induct with
  | case1 => rfl
  | case2 u =>
    cases t with
    | nil => rfl
    | cons v rest =>
      have hv : isLow v = false := h v rfl
      simp only [List.cons_append, List.nil_append, tokens, hv, Bool.and_false, Bool.false_eq_true, if_false]
  | case3 u v rest hpair ih =>
    rw [List.cons_append, List.cons_append, tokens, if_pos hpair, ih, tokens, if_pos hpair]
    rfl
  | case4 u v rest hpair ih =>
    rw [List.cons_append, List.cons_append, tokens, if_neg hpair, ← List.cons_append, ih, tokens, if_neg hpair]
    rfl

theorem utf8Encode_append {s t : JsString} (h : ∀ u ∈ t.head?, isLow u = false) :
    utf8Encode (s ++ t) = utf8Encode s ++ utf8Encode t := by
  simp only [utf8Encode, codePoints, tokens_append h, List.map_append, List.flatMap_append]

/-! ## What the encoder forgets -/

/-- The string has no U+FFFD and no surrogate without its partner. -/
def replacementFree (s : JsString) : Bool := !(codePoints s).contains 0xFFFD

/-- No surrogate without its partner. -/
def wellFormed (s : JsString) : Bool :=
  (tokens s).all fun t => match t with
    | .scalar _ => true
    | .lone _ => false

/-- On the code points of a string without U+FFFD every token is a scalar. -/
theorem tokens_eq_scalars (s : JsString) (h : 0xFFFD ∉ codePoints s) :
    tokens s = (codePoints s).map Token.scalar := by
  have hall : ∀ t ∈ tokens s, Token.scalar t.codePoint = t := by
    intro t ht
    cases t with
    | scalar c => rfl
    | lone u => exact absurd (List.mem_map.mpr ⟨_, ht, rfl⟩) h
  rw [codePoints, List.map_map]
  conv_lhs => rw [← List.map_id (tokens s)]
  exact List.map_congr_left fun t ht => (hall t ht).symm

theorem tokens_eq_scalars_of_wellFormed (s : JsString) (h : wellFormed s = true) :
    tokens s = (codePoints s).map Token.scalar := by
  have hall : ∀ t ∈ tokens s, Token.scalar t.codePoint = t := by
    intro t ht
    have := List.all_eq_true.mp h t ht
    cases t with
    | scalar c => rfl
    | lone u => simp at this
  rw [codePoints, List.map_map]
  conv_lhs => rw [← List.map_id (tokens s)]
  exact List.map_congr_left fun t ht => (hall t ht).symm

theorem utf8Encode_inj_of_replacementFree {s t : JsString} (hs : replacementFree s = true)
    (h : utf8Encode s = utf8Encode t) : s = t := by
  have hcp := codePoints_eq_of_utf8Encode h
  have hfree : 0xFFFD ∉ codePoints s := by simpa [replacementFree] using hs
  apply tokens_inj
  rw [tokens_eq_scalars s hfree, tokens_eq_scalars t (hcp ▸ hfree), hcp]

theorem utf8Encode_inj_of_wellFormed {s t : JsString} (hs : wellFormed s = true) (ht : wellFormed t = true)
    (h : utf8Encode s = utf8Encode t) : s = t := by
  have hcp := codePoints_eq_of_utf8Encode h
  apply tokens_inj
  rw [tokens_eq_scalars_of_wellFormed s hs, tokens_eq_scalars_of_wellFormed t ht, hcp]

/-- The bytes of a string, one code unit each: what is left of it once encoded. -/
def binary (s : JsString) : JsString := (utf8Encode s).map fun b => UInt16.ofNat b.toNat

theorem binary_eq_iff {s t : JsString} : binary s = binary t ↔ utf8Encode s = utf8Encode t := by
  refine ⟨fun h => List.map_injective_iff.mpr ?_ h, fun h => by rw [binary, h, binary]⟩
  intro a b hab
  have hbyte : ∀ b : UInt8, b.toNat < 65536 := fun b => by have := b.toNat_lt; omega
  have := congrArg UInt16.toNat hab
  rw [UInt16.toNat_ofNat_of_lt' (hbyte a), UInt16.toNat_ofNat_of_lt' (hbyte b)] at this
  exact UInt8.toNat_inj.mp this

theorem replacementFree_of_ascii {s : JsString} (h : ∀ u ∈ s, u.toNat < 0x80) : replacementFree s = true := by
  simp only [replacementFree, codePoints_ascii s h, List.contains_eq_mem, List.mem_map, Bool.not_eq_eq_eq_not,
    Bool.not_true, decide_eq_false_iff_not]
  rintro ⟨u, hu, heq⟩
  have := h u hu
  omega

theorem utf8Encode_inj_of_ascii {s t : JsString} (hs : ∀ u ∈ s, u.toNat < 0x80) (h : utf8Encode s = utf8Encode t) :
    s = t := utf8Encode_inj_of_replacementFree (replacementFree_of_ascii hs) h

/-! ## Strings encoded alike -/

theorem tokens_cons_of_not_high {u : UInt16} (h : isHigh u = false) (s : JsString) :
    tokens (u :: s) = single u :: tokens s := by
  cases s with
  | nil => rfl
  | cons v rest => simp [tokens, h]

theorem codePoints_cons_of_not_high {u : UInt16} (h : isHigh u = false) (s : JsString) :
    codePoints (u :: s) = (single u).codePoint :: codePoints s := by
  rw [codePoints, tokens_cons_of_not_high h]; rfl

/-- A code unit the encoder writes as U+FFFD has another one that it writes so. -/
theorem exists_same_unit {u : UInt16} (h : (single u).codePoint = 0xFFFD) :
    ∃ v, v ≠ u ∧ isHigh v = false ∧ (single v).codePoint = 0xFFFD := by
  by_cases hu : u = 0xFFFD
  · subst hu
    exact ⟨0xDC00, by decide, rfl, rfl⟩
  · exact ⟨0xFFFD, fun h => hu h.symm, rfl, rfl⟩

/-- A string that the encoder does not keep is encoded like another one. -/
theorem exists_same_codePoints {s : JsString} (h : 0xFFFD ∈ codePoints s) :
    ∃ t, t ≠ s ∧ codePoints t = codePoints s := by
  induction s using tokens.induct with
  | case1 => cases h
  | case2 u =>
    obtain ⟨v, hne, hhigh, hv⟩ := exists_same_unit (List.mem_singleton.mp h).symm
    refine ⟨[v], by simpa using hne, ?_⟩
    rw [codePoints_cons_of_not_high hhigh, hv]
    exact congrArg (· :: []) (List.mem_singleton.mp h)
  | case3 u v rest hpair ih =>
    have hcode : ∀ r, codePoints (u :: v :: r) =
        (Token.scalar (0x10000 + (u.toNat - 0xD800) * 0x400 + (v.toNat - 0xDC00))).codePoint :: codePoints r := by
      intro r
      rw [codePoints, tokens, if_pos hpair]; rfl
    rw [hcode] at h
    rcases List.mem_cons.mp h with h | h
    · simp only [Token.codePoint] at h
      omega
    · obtain ⟨t, hne, ht⟩ := ih h
      exact ⟨u :: v :: t, by simpa using hne, by rw [hcode, hcode, ht]⟩
  | case4 u v rest hpair ih =>
    have hcode : codePoints (u :: v :: rest) = (single u).codePoint :: codePoints (v :: rest) := by
      rw [codePoints, tokens, if_neg hpair]; rfl
    by_cases hu : (single u).codePoint = 0xFFFD
    · obtain ⟨w, hne, hhigh, hw⟩ := exists_same_unit hu
      refine ⟨w :: v :: rest, by simpa using hne, ?_⟩
      rw [codePoints_cons_of_not_high hhigh, hw, hcode, hu]
    · rw [hcode] at h
      obtain ⟨t, hne, ht⟩ := ih ((List.mem_cons.mp h).resolve_left fun heq => hu heq.symm)
      have hhigh : isHigh u = false := by
        by_contra hhigh
        exact hu (by simp [single, eq_true_of_ne_false hhigh, Token.codePoint])
      exact ⟨u :: t, by simpa using hne, by rw [codePoints_cons_of_not_high hhigh, hcode, ht]⟩

theorem exists_utf8Encode_eq {s : JsString} (h : replacementFree s = false) :
    ∃ t, t ≠ s ∧ utf8Encode t = utf8Encode s := by
  obtain ⟨t, hne, ht⟩ := exists_same_codePoints (s := s) (by simpa [replacementFree] using h)
  exact ⟨t, hne, by rw [utf8Encode, ht, utf8Encode]⟩

theorem length_units (t : Token) : t.units.length = if t.codePoint < 0x10000 then 1 else 2 := by
  cases t with
  | scalar c => by_cases h : c < 0x10000 <;> simp [Token.units, Token.codePoint, h]
  | lone u => rfl

theorem length_eq_of_utf8Encode {s t : JsString} (h : utf8Encode s = utf8Encode t) : s.length = t.length := by
  have hsum : ∀ s : JsString, s.length = ((codePoints s).map fun c => if c < 0x10000 then 1 else 2).sum := by
    intro s
    conv_lhs => rw [← units_tokens s]
    rw [List.length_flatMap, codePoints, List.map_map]
    exact congrArg List.sum (List.map_congr_left fun t _ => length_units t)
  rw [hsum, hsum, codePoints_eq_of_utf8Encode h]

end Utf8
