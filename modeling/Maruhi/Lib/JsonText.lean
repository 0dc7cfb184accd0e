import Maruhi.Lib.Text

/-!
# JSON text (`JSON.stringify`, `JSON.parse`)

Numbers stay abstract: their texts are the language's own conversions. Everything else is written and read here,
and what is written is read back.
-/

open Text

/-- A number and its text, as `Number::toString` writes it and a JSON number is read. `-0` counts as `0`. -/
structure Numerals (N : Type) where
  text : N → JsString
  read : JsString → Option N

namespace JsonText

/-! ## Values -/

variable {N : Type}

mutual
/-- A value as the language holds it: the members of an object in the order of its own properties. -/
inductive Value (N : Type)
  | null
  | bool (b : Bool)
  | num (n : N)
  | str (s : JsString)
  | arr (items : Items N)
  | obj (members : Members N)

inductive Items (N : Type)
  | nil
  | cons (value : Value N) (rest : Items N)

inductive Members (N : Type)
  | nil
  | cons (key : JsString) (value : Value N) (rest : Members N)
end

deriving instance DecidableEq for Value, Items, Members

/-- The number an array index stands for: such keys come first, ascending. -/
def arrayIndex? (key : JsString) : Option Nat :=
  let digits := key.map fun u => u.toNat - 48
  let n := digits.foldl (fun acc d => 10 * acc + d) 0
  if decimal n = key && n < 0xffffffff then some n else none

def precedes (key other : JsString) : Bool :=
  match arrayIndex? key, arrayIndex? other with
  | some n, some m => n < m
  | some _, none => true
  | none, _ => false

def Items.ofList : List (Value N) → Items N
  | [] => .nil
  | value :: rest => .cons value (ofList rest)

attribute [grind =] Items.ofList

namespace Members

def ofList : List (JsString × Value N) → Members N
  | [] => nil
  | e :: rest => cons e.1 e.2 (ofList rest)

attribute [grind =] ofList

def keys : Members N → List JsString
  | nil => []
  | cons key _ rest => key :: rest.keys

attribute [grind =] keys

def get? (name : JsString) : Members N → Option (Value N)
  | nil => none
  | cons key value rest => if key = name then some value else rest.get? name

attribute [grind =] get?

def append : Members N → Members N → Members N
  | nil, other => other
  | cons key value rest, other => cons key value (rest.append other)

attribute [grind =] append

/-- `CreateDataProperty` -/
def set (key : JsString) (value : Value N) : Members N → Members N
  | nil => cons key value nil
  | cons key' value' rest =>
    if key = key' then cons key value rest
    else if precedes key key' then cons key value (cons key' value' rest)
    else cons key' value' (rest.set key value)

attribute [grind =] set

end Members

mutual
/-- An object literal read: a repeated key keeps its place and takes the last value. -/
def Value.evaluate : Value N → Value N
  | .null => .null
  | .bool b => .bool b
  | .num n => .num n
  | .str s => .str s
  | .arr items => .arr items.evaluate
  | .obj members => .obj (members.evaluateOn .nil)

def Items.evaluate : Items N → Items N
  | .nil => .nil
  | .cons value rest => .cons value.evaluate rest.evaluate

def Members.evaluateOn : Members N → Members N → Members N
  | .nil, acc => acc
  | .cons key value rest, acc => rest.evaluateOn (acc.set key value.evaluate)
end

attribute [grind =] Value.evaluate Items.evaluate Members.evaluateOn

mutual
/-- Every object lists distinct keys in the order of own properties. -/
def Value.Held : Value N → Prop
  | .arr items => items.Held
  | .obj members => members.Held ∧ members.keys.Pairwise fun key later => later ≠ key ∧ precedes later key = false
  | _ => True

def Items.Held : Items N → Prop
  | .nil => True
  | .cons value rest => value.Held ∧ rest.Held

def Members.Held : Members N → Prop
  | .nil => True
  | .cons _ value rest => value.Held ∧ rest.Held
end

attribute [grind =] Value.Held Items.Held Members.Held

/-! ## Writing -/

def isHighSurrogate (u : UInt16) : Bool := 0xd800 ≤ u.toNat && u.toNat ≤ 0xdbff

def isLowSurrogate (u : UInt16) : Bool := 0xdc00 ≤ u.toNat && u.toNat ≤ 0xdfff

/-- `\u` and four lowercase hex digits. -/
def unicodeEscape (u : UInt16) : JsString :=
  [92, 117, hexDigit (u.toNat / 4096), hexDigit (u.toNat / 256 % 16), hexDigit (u.toNat / 16 % 16),
    hexDigit (u.toNat % 16)]

/-- A code unit on its own. -/
def quoteUnit (u : UInt16) : JsString :=
  if u = 34 then [92, 34]
  else if u = 92 then [92, 92]
  else if u = 8 then [92, 98]
  else if u = 12 then [92, 102]
  else if u = 10 then [92, 110]
  else if u = 13 then [92, 114]
  else if u = 9 then [92, 116]
  else if u.toNat < 32 || isHighSurrogate u || isLowSurrogate u then unicodeEscape u
  else [u]

/-- Two surrogates that pair up stand as they are. -/
def quoteUnits : JsString → JsString
  | [] => []
  | [u] => quoteUnit u
  | u :: v :: rest =>
    if isHighSurrogate u && isLowSurrogate v then u :: v :: quoteUnits rest else quoteUnit u ++ quoteUnits (v :: rest)

attribute [grind =] quoteUnits

def quoteString (s : JsString) : JsString := 34 :: (quoteUnits s ++ [34])

theorem length_quoteString_le (s : JsString) : (quoteString s).length ≤ 6 * s.length + 2 := by
  have hone : ∀ u, (quoteUnit u).length ≤ 6 := by
    intro u
    unfold quoteUnit
    split_ifs <;> simp [unicodeEscape]
  have hunits : (quoteUnits s).length ≤ 6 * s.length := by
    induction s using quoteUnits.induct with
    | case1 => simp [quoteUnits]
    | case2 u => simpa [quoteUnits] using hone u
    | case3 u v rest hpair ih =>
      rw [quoteUnits, if_pos hpair]
      simp only [List.length_cons]
      omega
    | case4 u v rest hpair ih =>
      rw [quoteUnits, if_neg hpair, List.length_append]
      have := hone u
      simp only [List.length_cons] at ih ⊢
      omega
  unfold quoteString
  simp only [List.length_cons, List.length_append, List.length_nil]
  omega

mutual
def stringifyValue (numerals : Numerals N) : Value N → JsString
  | .null => lit "null"
  | .bool true => lit "true"
  | .bool false => lit "false"
  | .num n => numerals.text n
  | .str s => quoteString s
  | .arr .nil => [91, 93]
  | .arr (.cons value rest) => 91 :: (stringifyValue numerals value ++ stringifyItems numerals rest)
  | .obj .nil => [123, 125]
  | .obj (.cons key value rest) =>
    123 :: (quoteString key ++ 58 :: (stringifyValue numerals value ++ stringifyMembers numerals rest))

/-- What follows an element. -/
def stringifyItems (numerals : Numerals N) : Items N → JsString
  | .nil => [93]
  | .cons value rest => 44 :: (stringifyValue numerals value ++ stringifyItems numerals rest)

/-- What follows a member. -/
def stringifyMembers (numerals : Numerals N) : Members N → JsString
  | .nil => [125]
  | .cons key value rest =>
    44 :: (quoteString key ++ 58 :: (stringifyValue numerals value ++ stringifyMembers numerals rest))
end

attribute [grind =] stringifyValue stringifyItems stringifyMembers

theorem length_stringifyItems (numerals : Numerals N) (l : List (Value N)) :
    (stringifyItems numerals (Items.ofList l)).length = (l.map fun v => (stringifyValue numerals v).length + 1).sum + 1 := by
  induction l with
  | nil => rfl
  | cons value rest ih =>
    rw [Items.ofList, stringifyItems, List.length_cons, List.length_append, ih, List.map_cons, List.sum_cons]
    omega

/-! ## Reading -/

def isSpace (u : UInt16) : Bool := u = 32 || u = 9 || u = 10 || u = 13

def skipSpace (s : JsString) : JsString := s.dropWhile isSpace

/-- The units a number is made of. -/
def isNumberUnit (u : UInt16) : Bool :=
  (48 ≤ u.toNat && u.toNat ≤ 57) || u = 43 || u = 45 || u = 46 || u = 69 || u = 101

def hexUnit? (u : UInt16) : Option Nat :=
  if 65 ≤ u.toNat ∧ u.toNat ≤ 70 then some (u.toNat - 55) else hexValue? u

/-- What an escape other than `\u` stands for. -/
def escapedUnit? (u : UInt16) : Option UInt16 :=
  if u = 34 then some 34
  else if u = 92 then some 92
  else if u = 47 then some 47
  else if u = 98 then some 8
  else if u = 102 then some 12
  else if u = 110 then some 10
  else if u = 114 then some 13
  else if u = 116 then some 9
  else none

/-- The string after its opening quote, and what follows the closing one. -/
def parseString : JsString → Option (JsString × JsString)
  | [] => none
  | u :: rest =>
    if u = 34 then some ([], rest)
    else if u.toNat < 32 then none
    else if u = 92 then
      match rest with
      | [] => none
      | e :: rest =>
        if e = 117 then
          match rest with
          | a :: b :: c :: d :: rest => do
            let unit := 4096 * (← hexUnit? a) + 256 * (← hexUnit? b) + 16 * (← hexUnit? c) + (← hexUnit? d)
            let (units, rest) ← parseString rest
            pure (UInt16.ofNat unit :: units, rest)
          | _ => none
        else do
          let unit ← escapedUnit? e
          let (units, rest) ← parseString rest
          pure (unit :: units, rest)
    else do
      let (units, rest) ← parseString rest
      pure (u :: units, rest)

attribute [grind =] parseString

def dropLiteral (literal s : JsString) : Option JsString :=
  if literal.isPrefixOf s then some (s.drop literal.length) else none

/-- A literal name or a number. -/
def parseScalar (numerals : Numerals N) (s : JsString) : Option (Value N × JsString) :=
  match dropLiteral (lit "null") s, dropLiteral (lit "true") s, dropLiteral (lit "false") s with
  | some rest, _, _ => some (.null, rest)
  | _, some rest, _ => some (.bool true, rest)
  | _, _, some rest => some (.bool false, rest)
  | none, none, none => (numerals.read (s.takeWhile isNumberUnit)).map fun n => (.num n, s.dropWhile isNumberUnit)

/-- What follows `u`, where it is the next unit that counts. -/
def expect (u : UInt16) (s : JsString) : Option JsString :=
  match skipSpace s with
  | [] => none
  | v :: rest => if v = u then some rest else none

mutual
def parseValue (numerals : Numerals N) : Nat → JsString → Option (Value N × JsString)
  | 0, _ => none
  | fuel + 1, s =>
    match skipSpace s with
    | [] => none
    | u :: rest =>
      if u = 34 then (parseString rest).map fun r => (.str r.1, r.2)
      else if u = 91 then
        match expect 93 rest with
        | some rest => some (.arr .nil, rest)
        | none => (parseItems numerals fuel rest).map fun r => (.arr r.1, r.2)
      else if u = 123 then
        match expect 125 rest with
        | some rest => some (.obj .nil, rest)
        | none => (parseMembers numerals fuel rest).map fun r => (.obj r.1, r.2)
      else parseScalar numerals (u :: rest)

def parseItems (numerals : Numerals N) : Nat → JsString → Option (Items N × JsString)
  | 0, _ => none
  | fuel + 1, s => do
    let (value, rest) ← parseValue numerals fuel s
    match expect 44 rest with
    | some rest => (parseItems numerals fuel rest).map fun r => (.cons value r.1, r.2)
    | none => (expect 93 rest).map fun rest => (.cons value .nil, rest)

def parseMembers (numerals : Numerals N) : Nat → JsString → Option (Members N × JsString)
  | 0, _ => none
  | fuel + 1, s => do
    let rest ← expect 34 s
    let (key, rest) ← parseString rest
    let rest ← expect 58 rest
    let (value, rest) ← parseValue numerals fuel rest
    match expect 44 rest with
    | some rest => (parseMembers numerals fuel rest).map fun r => (.cons key value r.1, r.2)
    | none => (expect 125 rest).map fun rest => (.cons key value .nil, rest)
end

attribute [grind =] parseValue parseItems parseMembers

def stringify (numerals : Numerals N) (value : Value N) : JsString := stringifyValue numerals value

/-- `JSON.parse`; none where it throws. -/
def parse (numerals : Numerals N) (text : JsString) : Option (Value N) := do
  let (value, rest) ← parseValue numerals (text.length + 1) text
  if (skipSpace rest).isEmpty then some value.evaluate else none

/-! ## Strings are read back -/

theorem hexUnit?_hexDigit : ∀ n < 16, hexUnit? (hexDigit n) = some n := by decide

theorem parseString_unicodeEscape (u : UInt16) (rest : JsString) :
    parseString (unicodeEscape u ++ rest) = (parseString rest).map fun r => (u :: r.1, r.2) := by
  have hu : u.toNat < 65536 := u.toNat_lt
  have hunit : 4096 * (u.toNat / 4096) + 256 * (u.toNat / 256 % 16) + 16 * (u.toNat / 16 % 16) + u.toNat % 16 =
      u.toNat := by omega
  simp only [unicodeEscape, List.cons_append, List.nil_append]
  rw [parseString, if_neg (by decide), if_neg (by decide), if_pos rfl]
  dsimp only
  rw [if_pos rfl, hexUnit?_hexDigit _ (by omega), hexUnit?_hexDigit _ (by omega), hexUnit?_hexDigit _ (by omega),
    hexUnit?_hexDigit _ (by omega)]
  simp only [Option.bind_eq_bind, Option.bind_some, hunit]
  cases parseString rest <;> simp

theorem parseString_plain {u : UInt16} (hquote : u ≠ 34) (hslash : u ≠ 92) (hcontrol : ¬ u.toNat < 32) (rest : JsString) :
    parseString (u :: rest) = (parseString rest).map fun r => (u :: r.1, r.2) := by
  rw [parseString.eq_def]
  dsimp only
  rw [if_neg hquote, if_neg hcontrol, if_neg hslash]
  cases parseString rest <;> rfl

theorem parseString_escape {e u : UInt16} (hne : e ≠ 117) (he : escapedUnit? e = some u) (rest : JsString) :
    parseString ([92, e] ++ rest) = (parseString rest).map fun r => (u :: r.1, r.2) := by
  simp only [List.cons_append, List.nil_append]
  rw [parseString.eq_def]
  dsimp only
  rw [if_neg (by decide), if_neg (by decide), if_pos rfl, if_neg hne, he]
  simp only [Option.bind_eq_bind, Option.bind_some]
  cases parseString rest <;> rfl

theorem parseString_quoteUnit (u : UInt16) (rest : JsString) :
    parseString (quoteUnit u ++ rest) = (parseString rest).map fun r => (u :: r.1, r.2) := by
  unfold quoteUnit
  split_ifs with h1 h2 h3 h4 h5 h6 h7 h8
  · exact parseString_escape (by decide) (by rw [h1]; rfl) rest
  · exact parseString_escape (by decide) (by rw [h2]; rfl) rest
  · exact parseString_escape (by decide) (by rw [h3]; rfl) rest
  · exact parseString_escape (by decide) (by rw [h4]; rfl) rest
  · exact parseString_escape (by decide) (by rw [h5]; rfl) rest
  · exact parseString_escape (by decide) (by rw [h6]; rfl) rest
  · exact parseString_escape (by decide) (by rw [h7]; rfl) rest
  · exact parseString_unicodeEscape u rest
  · exact parseString_plain h1 h2 (by simp at h8; omega) rest

theorem parseString_close (rest : JsString) : parseString (34 :: rest) = some ([], rest) := by
  rw [parseString.eq_def]
  dsimp only
  rw [if_pos rfl]

example : parseString (lit "a\"") = some (lit "a", []) := by decide

theorem parseString_quoteUnits (s rest : JsString) :
    parseString (quoteUnits s ++ 34 :: rest) = some (s, rest) := by
  induction s using quoteUnits.induct with
  | case1 => exact parseString_close rest
  | case2 u =>
    rw [quoteUnits, parseString_quoteUnit, parseString_close]
    rfl
  | case3 u v s hpair ih =>
    have hplain : ∀ w : UInt16, isHighSurrogate w = true ∨ isLowSurrogate w = true →
        w ≠ 34 ∧ w ≠ 92 ∧ ¬ w.toNat < 32 := by
      intro w hw
      simp only [isHighSurrogate, isLowSurrogate, Bool.and_eq_true, decide_eq_true_eq] at hw
      refine ⟨?_, ?_, by omega⟩
      · rintro rfl
        revert hw
        decide
      · rintro rfl
        revert hw
        decide
    simp only [Bool.and_eq_true] at hpair
    obtain ⟨hu1, hu2, hu3⟩ := hplain u (Or.inl hpair.1)
    obtain ⟨hv1, hv2, hv3⟩ := hplain v (Or.inr hpair.2)
    rw [quoteUnits, if_pos (by simp [hpair]), List.cons_append, List.cons_append, parseString_plain hu1 hu2 hu3,
      parseString_plain hv1 hv2 hv3, ih]
    rfl
  | case4 u v s hpair ih =>
    rw [quoteUnits, if_neg hpair, List.append_assoc, parseString_quoteUnit, ih]
    rfl

/-! ## Values are read back -/

/-- The laws of the language's number conversions. -/
structure Lawful (numerals : Numerals N) : Prop where
  read_text : ∀ n, numerals.read (numerals.text n) = some n
  units : ∀ n, ∀ u ∈ numerals.text n, isNumberUnit u = true
  ne_nil : ∀ n, numerals.text n ≠ []

/-- A text that does not continue a number. -/
def Stops (rest : JsString) : Prop := ∀ u ∈ rest.head?, isNumberUnit u = false

theorem stringifyValue_head {numerals : Numerals N} (h : Lawful numerals) (value : Value N) :
    ∃ u s, stringifyValue numerals value = u :: s ∧ isSpace u = false ∧ u ≠ 93 := by
  have hcons : ∀ (u : UInt16) (s : JsString), isSpace u = false → u ≠ 93 →
      ∃ u' s', u :: s = u' :: s' ∧ isSpace u' = false ∧ u' ≠ 93 := fun u s h1 h2 => ⟨u, s, rfl, h1, h2⟩
  cases value with
  | null => exact hcons 110 _ (by decide) (by decide)
  | bool b =>
    cases b with
    | true => exact hcons 116 _ (by decide) (by decide)
    | false => exact hcons 102 _ (by decide) (by decide)
  | num n =>
    cases htext : numerals.text n with
    | nil => exact absurd htext (h.ne_nil n)
    | cons u s =>
      have hunit := h.units n u (by simp [htext])
      refine ⟨u, s, htext, ?_, ?_⟩
      · rw [Bool.eq_false_iff]
        intro hspace
        simp only [isSpace, Bool.or_eq_true, decide_eq_true_eq] at hspace
        rcases hspace with ((rfl | rfl) | rfl) | rfl <;> exact absurd hunit (by decide)
      · rintro rfl
        exact absurd hunit (by decide)
  | str s => exact hcons 34 _ (by decide) (by decide)
  | arr items => cases items <;> exact hcons 91 _ (by decide) (by decide)
  | obj members => cases members <;> exact hcons 123 _ (by decide) (by decide)

theorem skipSpace_cons {u : UInt16} (h : isSpace u = false) (s : JsString) : skipSpace (u :: s) = u :: s := by
  simp [skipSpace, h]

theorem expect_self {u : UInt16} (h : isSpace u = false) (s : JsString) : expect u (u :: s) = some s := by
  rw [expect, skipSpace_cons h]
  exact if_pos rfl

theorem expect_ne {u v : UInt16} (h : isSpace v = false) (hne : v ≠ u) (s : JsString) : expect u (v :: s) = none := by
  rw [expect, skipSpace_cons h]
  exact if_neg hne

theorem stops_cons {u : UInt16} (h : isNumberUnit u = false) (s : JsString) : Stops (u :: s) := by
  simpa [Stops] using h

theorem dropLiteral_head {u v : UInt16} (h : u ≠ v) (literal s : JsString) : dropLiteral (u :: literal) (v :: s) = none := by
  simp [dropLiteral, h]

theorem parseScalar_num {numerals : Numerals N} (h : Lawful numerals) (n : N) {rest : JsString} (hrest : Stops rest) :
    parseScalar numerals (numerals.text n ++ rest) = some (.num n, rest) := by
  have htake : (numerals.text n ++ rest).takeWhile isNumberUnit = numerals.text n := by
    rw [List.takeWhile_append_of_pos (h.units n)]
    cases rest with
    | nil => simp
    | cons u s => simp [show isNumberUnit u = false from hrest u rfl]
  have hdrop : (numerals.text n ++ rest).dropWhile isNumberUnit = rest := by
    rw [List.dropWhile_append_of_pos (h.units n)]
    cases rest with
    | nil => simp
    | cons u s => simp [show isNumberUnit u = false from hrest u rfl]
  have hnone : ∀ (v : UInt16) (literal : JsString), isNumberUnit v = false →
      dropLiteral (v :: literal) (numerals.text n ++ rest) = none := by
    intro v literal hv
    cases htext : numerals.text n with
    | nil => exact absurd htext (h.ne_nil n)
    | cons u s =>
      apply dropLiteral_head
      rintro rfl
      rw [h.units n v (by simp [htext])] at hv
      cases hv
  unfold parseScalar
  rw [show lit "null" = 110 :: lit "ull" from rfl, show lit "true" = 116 :: lit "rue" from rfl,
    show lit "false" = 102 :: lit "alse" from rfl, hnone _ _ (by decide), hnone _ _ (by decide), hnone _ _ (by decide)]
  dsimp only
  rw [htake, hdrop, h.read_text]
  rfl

/-! One step of the reader, by the first unit. -/

theorem parseValue_scalar (numerals : Numerals N) {u : UInt16} (hspace : isSpace u = false) (hquote : u ≠ 34)
    (harray : u ≠ 91) (hobject : u ≠ 123) (fuel : Nat) (s : JsString) :
    parseValue numerals (fuel + 1) (u :: s) = parseScalar numerals (u :: s) := by
  rw [parseValue, skipSpace_cons hspace]
  dsimp only
  rw [if_neg hquote, if_neg harray, if_neg hobject]

theorem parseValue_quote (numerals : Numerals N) (fuel : Nat) (s rest : JsString) :
    parseValue numerals (fuel + 1) (quoteString s ++ rest) = some (.str s, rest) := by
  rw [quoteString, List.cons_append, List.append_assoc, parseValue, skipSpace_cons (by decide)]
  dsimp only
  rw [if_pos rfl, List.singleton_append, parseString_quoteUnits]
  rfl

theorem parseValue_array (numerals : Numerals N) {u : UInt16} (hspace : isSpace u = false) (hclose : u ≠ 93) (fuel : Nat)
    (s : JsString) :
    parseValue numerals (fuel + 1) (91 :: u :: s) = (parseItems numerals fuel (u :: s)).map fun r => (.arr r.1, r.2) := by
  rw [parseValue, skipSpace_cons (by decide)]
  dsimp only
  rw [if_neg (by decide), if_pos rfl, expect_ne hspace hclose]

theorem parseValue_object (numerals : Numerals N) (fuel : Nat) (s : JsString) :
    parseValue numerals (fuel + 1) (123 :: 34 :: s) =
      (parseMembers numerals fuel (34 :: s)).map fun r => (.obj r.1, r.2) := by
  rw [parseValue, skipSpace_cons (by decide)]
  dsimp only
  rw [if_neg (by decide), if_neg (by decide), if_pos rfl, expect_ne (by decide) (by decide)]

mutual
theorem parseValue_stringify {numerals : Numerals N} (h : Lawful numerals) (value : Value N) (fuel : Nat)
    (rest : JsString) (hfuel : (stringifyValue numerals value).length ≤ fuel) (hrest : Stops rest) :
    parseValue numerals fuel (stringifyValue numerals value ++ rest) = some (value, rest) := by
  obtain ⟨u, s, htext, hspace, -⟩ := stringifyValue_head h value
  obtain ⟨fuel, rfl⟩ : ∃ f, fuel = f + 1 := ⟨fuel - 1, by rw [htext] at hfuel; simp at hfuel; omega⟩
  cases value with
  | null =>
    rw [stringifyValue, show lit "null" = 110 :: lit "ull" from rfl, List.cons_append,
      parseValue_scalar numerals (by decide) (by decide) (by decide) (by decide)]
    rfl
  | bool b =>
    cases b with
    | true =>
      rw [stringifyValue, show lit "true" = 116 :: lit "rue" from rfl, List.cons_append,
        parseValue_scalar numerals (by decide) (by decide) (by decide) (by decide)]
      rfl
    | false =>
      rw [stringifyValue, show lit "false" = 102 :: lit "alse" from rfl, List.cons_append,
        parseValue_scalar numerals (by decide) (by decide) (by decide) (by decide)]
      rfl
  | num n =>
    have hunit : isNumberUnit u = true := by
      apply h.units n
      rw [show numerals.text n = u :: s from htext]
      simp
    have hscalar := parseScalar_num h n hrest
    rw [show numerals.text n = u :: s from htext, List.cons_append] at hscalar
    rw [htext, List.cons_append, parseValue_scalar numerals hspace _ _ _, hscalar]
    · rintro rfl
      exact absurd hunit (by decide)
    · rintro rfl
      exact absurd hunit (by decide)
    · rintro rfl
      exact absurd hunit (by decide)
  | str s => exact parseValue_quote numerals fuel s rest
  | arr items =>
    cases items with
    | nil => rfl
    | cons value items =>
      obtain ⟨v, s', hvalue, hspace', hclose⟩ := stringifyValue_head h value
      rw [stringifyValue] at hfuel ⊢
      have hitems := parseItems_stringify h value items fuel rest (by simpa using hfuel)
      rw [hvalue, List.cons_append] at hitems
      rw [hvalue, List.cons_append, List.cons_append, List.cons_append, List.append_assoc,
        parseValue_array numerals hspace' hclose, hitems]
      rfl
  | obj members =>
    cases members with
    | nil => rfl
    | cons key value members =>
      rw [stringifyValue] at hfuel ⊢
      have hmembers := parseMembers_stringify h key value members fuel rest (by simpa using hfuel)
      rw [quoteString, List.cons_append] at hmembers
      rw [quoteString, List.cons_append, List.cons_append, List.cons_append]
      simp only [List.append_assoc, List.cons_append] at hmembers ⊢
      rw [parseValue_object, hmembers]
      rfl
termination_by sizeOf value

theorem parseItems_stringify {numerals : Numerals N} (h : Lawful numerals) (value : Value N) (items : Items N)
    (fuel : Nat) (rest : JsString)
    (hfuel : (stringifyValue numerals value ++ stringifyItems numerals items).length ≤ fuel) :
    parseItems numerals fuel (stringifyValue numerals value ++ (stringifyItems numerals items ++ rest)) =
      some (.cons value items, rest) := by
  rw [List.length_append] at hfuel
  obtain ⟨fuel, rfl⟩ : ∃ f, fuel = f + 1 := ⟨fuel - 1, by cases items <;> simp [stringifyItems] at hfuel <;> omega⟩
  cases items with
  | nil =>
    rw [stringifyItems] at hfuel ⊢
    simp only [List.length_singleton] at hfuel
    have hvalue := parseValue_stringify h value fuel (93 :: rest) (by omega) (stops_cons (by decide) rest)
    rw [parseItems, List.singleton_append, hvalue]
    simp only [Option.bind_eq_bind, Option.bind_some]
    rw [expect_ne (by decide) (by decide), expect_self (by decide)]
    rfl
  | cons value' items =>
    rw [stringifyItems] at hfuel ⊢
    simp only [List.length_cons] at hfuel
    have hvalue := parseValue_stringify h value fuel
      (44 :: (stringifyValue numerals value' ++ (stringifyItems numerals items ++ rest))) (by omega)
      (stops_cons (by decide) _)
    have hitems := parseItems_stringify h value' items fuel rest (by omega)
    rw [parseItems, List.cons_append, List.append_assoc, hvalue]
    simp only [Option.bind_eq_bind, Option.bind_some]
    rw [expect_self (by decide)]
    dsimp only
    rw [hitems]
    rfl
termination_by sizeOf value + sizeOf items

theorem parseMembers_stringify {numerals : Numerals N} (h : Lawful numerals) (key : JsString) (value : Value N)
    (members : Members N) (fuel : Nat) (rest : JsString)
    (hfuel : (quoteString key ++ 58 :: (stringifyValue numerals value ++ stringifyMembers numerals members)).length ≤ fuel) :
    parseMembers numerals fuel (quoteString key ++
      58 :: (stringifyValue numerals value ++ (stringifyMembers numerals members ++ rest))) =
      some (.cons key value members, rest) := by
  simp only [List.length_append, List.length_cons] at hfuel
  obtain ⟨fuel, rfl⟩ : ∃ f, fuel = f + 1 := ⟨fuel - 1, by omega⟩
  have hkey : ∀ after, parseString (quoteUnits key ++ [34] ++ 58 :: after) = some (key, 58 :: after) := fun after => by
    rw [List.append_assoc, List.singleton_append, parseString_quoteUnits]
  rw [quoteString, List.cons_append, parseMembers, expect_self (by decide)]
  simp only [Option.bind_eq_bind, Option.bind_some]
  rw [hkey]
  simp only [Option.bind_some]
  rw [expect_self (by decide)]
  simp only [Option.bind_some]
  cases members with
  | nil =>
    rw [stringifyMembers] at hfuel ⊢
    simp only [List.length_singleton] at hfuel
    rw [List.singleton_append, parseValue_stringify h value fuel (125 :: rest) (by omega) (stops_cons (by decide) rest)]
    simp only [Option.bind_some]
    rw [expect_ne (by decide) (by decide), expect_self (by decide)]
    rfl
  | cons key' value' members =>
    rw [stringifyMembers] at hfuel ⊢
    simp only [List.length_cons, List.length_append] at hfuel
    have hmembers := parseMembers_stringify h key' value' members fuel rest
      (by simp only [List.length_append, List.length_cons]; omega)
    simp only [List.cons_append, List.append_assoc] at hmembers ⊢
    rw [parseValue_stringify h value fuel _ (by omega) (stops_cons (by decide) _)]
    simp only [Option.bind_some]
    rw [expect_self (by decide)]
    dsimp only
    rw [hmembers]
    rfl
termination_by sizeOf value + sizeOf members
end

/-! ## Objects keep their order -/

namespace Members

theorem append_nil : ∀ members : Members N, members.append .nil = members
  | nil => rfl
  | cons key value rest => by rw [append, append_nil rest]

theorem append_assoc : ∀ a b c : Members N, (a.append b).append c = a.append (b.append c)
  | nil, _, _ => rfl
  | cons key value rest, b, c => by rw [append, append, append, append_assoc rest]

theorem keys_append : ∀ a b : Members N, (a.append b).keys = a.keys ++ b.keys
  | nil, _ => rfl
  | cons key value rest, b => by rw [append, keys, keys_append rest, keys, List.cons_append]

theorem set_last {key : JsString} (value : Value N) :
    ∀ members : Members N, (∀ other ∈ members.keys, key ≠ other ∧ precedes key other = false) →
      members.set key value = members.append (.cons key value .nil)
  | nil, _ => rfl
  | cons other value' rest, h => by
    obtain ⟨hne, hafter⟩ := h other (by simp [keys])
    rw [set, if_neg hne, if_neg (by simp [hafter]), append,
      set_last value rest fun k hk => h k (by simp [keys, hk])]

end Members

mutual
theorem Value.evaluate_held : ∀ value : Value N, value.Held → value.evaluate = value
  | .null, _ => rfl
  | .bool _, _ => rfl
  | .num _, _ => rfl
  | .str _, _ => rfl
  | .arr items, h => by rw [Value.evaluate, Items.evaluate_held items h]
  | .obj members, h => by
    rw [Value.evaluate, Members.evaluateOn_held members .nil h.1 (by simpa [Members.keys] using h.2), Members.append]

theorem Items.evaluate_held : ∀ items : Items N, items.Held → items.evaluate = items
  | .nil, _ => rfl
  | .cons value rest, h => by rw [Items.evaluate, Value.evaluate_held value h.1, Items.evaluate_held rest h.2]

theorem Members.evaluateOn_held : ∀ members acc : Members N, members.Held →
    (acc.keys ++ members.keys).Pairwise (fun key later => later ≠ key ∧ precedes later key = false) →
    members.evaluateOn acc = acc.append members
  | .nil, acc, _, _ => (Members.append_nil acc).symm
  | .cons key value rest, acc, h, hkeys => by
    have hlast : ∀ other ∈ acc.keys, key ≠ other ∧ precedes key other = false := fun other hother =>
      (List.pairwise_append.mp hkeys).2.2 other hother key (by simp [Members.keys])
    rw [Members.evaluateOn, Value.evaluate_held value h.1, Members.set_last value acc hlast,
      Members.evaluateOn_held rest _ h.2, Members.append_assoc]
    · rfl
    · rw [Members.keys_append]
      simpa [Members.keys, List.append_assoc] using hkeys
end

/-- What is written is read back, as it was held. -/
theorem parse_stringify {numerals : Numerals N} (h : Lawful numerals) {value : Value N} (hheld : value.Held) :
    parse numerals (stringify numerals value) = some value := by
  have hvalue := parseValue_stringify h value ((stringify numerals value).length + 1) [] (Nat.le_succ _) (by simp [Stops])
  rw [List.append_nil] at hvalue
  unfold parse
  rw [stringify] at hvalue ⊢
  rw [hvalue]
  simp only [Option.bind_eq_bind, Option.bind_some]
  rw [if_pos (by rfl), Value.evaluate_held value hheld]

/-! ## A property set keeps the order -/

theorem precedes_trans {a b c : JsString} (hab : precedes a b = true) (hbc : precedes b c = true) :
    precedes a c = true := by
  unfold precedes at hab hbc ⊢
  cases ha : arrayIndex? a <;> cases hb : arrayIndex? b <;> cases hc : arrayIndex? c <;> simp_all
  omega

theorem Members.mem_keys_set {key other : JsString} {value : Value N} {members : Members N}
    (h : other ∈ (members.set key value).keys) : other = key ∨ other ∈ members.keys := by
  induction members using Members.keys.induct with
  | case1 => simpa [Members.set, Members.keys] using h
  | case2 key' value' rest ih =>
    unfold Members.set at h
    split_ifs at h with heq hprecedes
    · subst heq
      simpa [Members.keys] using h
    · simpa [Members.keys] using h
    · rcases List.mem_cons.mp h with rfl | h
      · simp [Members.keys]
      · rcases ih h with rfl | h
        · exact Or.inl rfl
        · simp [Members.keys, h]

theorem Members.values_set {key : JsString} {value : Value N} {members : Members N} (h : members.Held)
    (hvalue : value.Held) : (members.set key value).Held := by
  induction members using Members.keys.induct with
  | case1 => exact ⟨hvalue, h⟩
  | case2 key' value' rest ih =>
    obtain ⟨hfirst, hrest⟩ := h
    unfold Members.set
    split_ifs
    · exact ⟨hvalue, hrest⟩
    · exact ⟨hvalue, hfirst, hrest⟩
    · exact ⟨hfirst, ih hrest⟩

theorem Members.keys_set_pairwise {key : JsString} {value : Value N} {members : Members N}
    (h : members.keys.Pairwise fun key later => later ≠ key ∧ precedes later key = false) :
    (members.set key value).keys.Pairwise fun key later => later ≠ key ∧ precedes later key = false := by
  induction members using Members.keys.induct with
  | case1 => simp [Members.set, Members.keys]
  | case2 key' value' rest ih =>
    obtain ⟨hfirst, hrest⟩ := List.pairwise_cons.mp h
    unfold Members.set
    split_ifs with heq hprecedes
    · subst heq
      exact h
    · refine List.pairwise_cons.mpr ⟨fun later hlater => ?_, h⟩
      rcases List.mem_cons.mp hlater with rfl | hlater
      · refine ⟨fun heq' => heq heq'.symm, ?_⟩
        by_contra hlater
        rw [Bool.not_eq_false] at hlater
        have hself := precedes_trans hprecedes hlater
        unfold precedes at hself
        cases hindex : arrayIndex? key <;> simp [hindex] at hself
      · obtain ⟨-, hnot⟩ := hfirst later hlater
        refine ⟨fun heq' => ?_, ?_⟩
        · rw [heq', hprecedes] at hnot
          cases hnot
        · by_contra hbefore
          rw [Bool.not_eq_false] at hbefore
          rw [precedes_trans hbefore hprecedes] at hnot
          cases hnot
    · refine List.pairwise_cons.mpr ⟨fun later hlater => ?_, ih hrest⟩
      rcases Members.mem_keys_set hlater with rfl | hlater
      · exact ⟨heq, by simpa using hprecedes⟩
      · exact hfirst later hlater

theorem Value.held_set {key : JsString} {value : Value N} {members : Members N} (h : (Value.obj members).Held)
    (hvalue : value.Held) : (Value.obj (members.set key value)).Held :=
  ⟨Members.values_set h.1 hvalue, Members.keys_set_pairwise h.2⟩

/-! ## Natural numbers -/

/-- The numbers of a program that holds no others. -/
def naturals : Numerals Nat where
  text := decimal
  read s :=
    let n := Nat.ofDigitChars 10 (s.map fun u => Char.ofNat u.toNat) 0
    if decimal n = s then some n else none

theorem chars_decimal (n : Nat) : ((decimal n).map fun u => Char.ofNat u.toNat) = Nat.toDigits 10 n := by
  unfold decimal
  rw [List.map_map]
  refine (List.map_congr_left fun c hc => ?_).trans (List.map_id _)
  have hdigit := digit_toNat n c hc
  show Char.ofNat (UInt16.ofNat c.toNat).toNat = c
  rw [UInt16.toNat_ofNat_of_lt' (by simp only [UInt16.size]; omega), Char.ofNat_toNat]

theorem naturals_lawful : Lawful naturals where
  read_text n := by
    have hn : Nat.ofDigitChars 10 ((decimal n).map fun u => Char.ofNat u.toNat) 0 = n := by
      rw [chars_decimal, Nat.ofDigitChars_toDigits (by omega) (by omega)]
    simp only [naturals, hn, if_pos]
  units n u hu := by
    obtain ⟨hlow, hhigh⟩ := decimal_unit n u hu
    simp [isNumberUnit, hlow, hhigh]
  ne_nil n h := Nat.toDigits_ne_nil (List.map_eq_nil_iff.mp h)

end JsonText
