import Maruhi.EnvFile.Lines

/-!
# Quoted values over several lines

The reference reading of a file: an assignment's value that begins with a quote extends to the next same quote,
over line breaks. It marks the characters inside the values that span several lines.
-/

namespace Maruhi.EnvFile
open Text

/-! ## The reading -/

/-- What follows the first `=` of an assignment line, leading whitespace aside. -/
def valueOf (line : JsString) : Option JsString :=
  if (trim id line).isEmpty ∨ (trim id line).head? = some 35 then none
  else
    match line.dropWhile fun c => c ≠ 61 with
    | [] => none
    | _ :: rest => some (rest.dropWhile isWhitespace)

/-- The quote that a line's value begins with, and what follows it on the line. -/
def openingQuote (line : JsString) : Option (UInt16 × JsString) :=
  match valueOf line with
  | some (q :: rest) => if isQuote q then some (q, rest) else none
  | _ => none

/-- The text up to the next `q`, a piece for each line. -/
def quotedPieces (q : UInt16) : List JsString → Option (List JsString)
  | [] => none
  | line :: later =>
    if q ∈ line then some [line.takeWhile fun c => c ≠ q] else (quotedPieces q later).map (line :: ·)

attribute [grind =] quotedPieces

/-- The value of the assignment that begins on a line: quoted, or without its comment. -/
def referenceValue (line : JsString) (later : List JsString) : Option (List JsString) :=
  match openingQuote line with
  | some (q, rest) => quotedPieces q (rest :: later)
  | none => (valueOf line).map fun value => [trim id (stripComment id (trim id value))]

/-- The quote of a value that ends on a later line, and what follows it on this one. -/
def spanningQuote (line : JsString) (later : List JsString) : Option (UInt16 × JsString) :=
  match openingQuote line with
  | some (q, rest) => if q ∉ rest ∧ ∃ l ∈ later, q ∈ l then some (q, rest) else none
  | none => none

structure RefLine where
  /-- Whether the line begins inside a quoted value. -/
  inside : Bool
  /-- The line, with the characters marked that are inside a value that spans several lines. -/
  text : List (UInt16 × Bool)
  /-- The name and the value of the assignment that begins on the line. -/
  assignment : Option (JsString × List JsString)
  deriving DecidableEq, Repr

/-- A line that begins inside a value with the quote `q`. -/
def insideLine (q : UInt16) (line : JsString) : RefLine where
  inside := true
  text := (line.takeWhile fun c => c ≠ q).map (·, true) ++ (line.dropWhile fun c => c ≠ q).map (·, false)
  assignment := none

/-- A line that begins between values. -/
def freshLine (nfc : JsString → JsString) (line : JsString) (later : List JsString) : RefLine where
  inside := false
  text :=
    match spanningQuote line later with
    | some (_, rest) => (line.take (line.length - rest.length)).map (·, false) ++ rest.map (·, true)
    | none => line.map (·, false)
  assignment := (referenceValue line later).map fun pieces => (nfc (nameSource id line), pieces)

/-- Reads on from inside a value with the given quote, or from between values. -/
def readReference (nfc : JsString → JsString) : List JsString → Option UInt16 → List RefLine
  | [], _ => []
  | line :: later, some q => insideLine q line :: readReference nfc later (if q ∈ line then none else some q)
  | line :: later, none => freshLine nfc line later :: readReference nfc later ((spanningQuote line later).map Prod.fst)

attribute [grind =] readReference

/-! ## What the reading gives -/

theorem valueOf_suffix {line value : JsString} (h : valueOf line = some value) : ∃ w, line = w ++ value ∧ 61 ∈ w := by
  unfold valueOf at h
  split_ifs at h
  split at h
  · cases h
  · rename_i eq rest hrest
    cases h
    obtain ⟨w, hw, -⟩ := List.dropWhile_split (fun c => decide (c ≠ 61)) line
    obtain ⟨w', hw', -⟩ := List.dropWhile_split isWhitespace rest
    refine ⟨w ++ eq :: w', ?_, ?_⟩
    · rw [List.append_assoc, List.cons_append, ← hw', ← hrest]
      exact hw
    · have heq : eq = 61 := by simpa using List.head_dropWhile_false hrest
      rw [heq]
      exact List.mem_append_right _ List.mem_cons_self

theorem openingQuote_eq_some {line : JsString} {q : UInt16} {rest : JsString} :
    openingQuote line = some (q, rest) ↔ valueOf line = some (q :: rest) ∧ isQuote q = true := by
  unfold openingQuote
  constructor
  · intro h
    split at h
    · rename_i q' rest' hvalue
      split_ifs at h with hquote
      cases h
      exact ⟨hvalue, hquote⟩
    · cases h
  · rintro ⟨hvalue, hquote⟩
    rw [hvalue]
    exact if_pos hquote

theorem spanningQuote_eq_some {line : JsString} {later : List JsString} {q : UInt16} {rest : JsString} :
    spanningQuote line later = some (q, rest) ↔
      openingQuote line = some (q, rest) ∧ q ∉ rest ∧ ∃ l ∈ later, q ∈ l := by
  unfold spanningQuote
  constructor
  · intro h
    split at h
    · rename_i q' rest' hopening
      split_ifs at h with hspans
      cases h
      exact ⟨hopening, hspans⟩
    · cases h
  · rintro ⟨hopening, hspans⟩
    rw [hopening]
    exact if_pos hspans

theorem map_mark (b : Bool) (line : JsString) : (line.map (·, b)).map Prod.fst = line := by
  rw [List.map_map]
  exact List.map_id line

theorem insideLine_text (q : UInt16) (line : JsString) : (insideLine q line).text.map Prod.fst = line := by
  unfold insideLine
  dsimp only
  rw [List.map_append, map_mark, map_mark, List.takeWhile_append_dropWhile]

theorem take_opening (w : JsString) (q : UInt16) (rest : JsString) :
    (w ++ q :: rest).take ((w ++ q :: rest).length - rest.length) = w ++ [q] := by
  rw [← List.singleton_append, ← List.append_assoc, List.length_append, Nat.add_sub_cancel, List.take_left]

theorem freshLine_text (nfc : JsString → JsString) (line : JsString) (later : List JsString) :
    (freshLine nfc line later).text.map Prod.fst = line := by
  unfold freshLine
  dsimp only
  split
  · rename_i q rest hspanning
    obtain ⟨w, hw, -⟩ := valueOf_suffix (openingQuote_eq_some.mp (spanningQuote_eq_some.mp hspanning).1).1
    rw [List.map_append, map_mark, map_mark, hw, take_opening, List.append_assoc, List.singleton_append]
  · rw [map_mark]

theorem readReference_text (nfc : JsString → JsString) (lines : List JsString) (mode : Option UInt16) :
    (readReference nfc lines mode).map (fun ref => ref.text.map Prod.fst) = lines := by
  induction lines generalizing mode with
  | nil => cases mode <;> rfl
  | cons line later ih =>
    cases mode with
    | some q => rw [readReference, List.map_cons, ih, insideLine_text]
    | none => rw [readReference, List.map_cons, ih, freshLine_text]

theorem readReference_rest {nfc : JsString → JsString} {lines : List JsString} {mode : Option UInt16}
    {before rest : List RefLine} (h : readReference nfc lines mode = before ++ rest) :
    ∃ lines' mode', rest = readReference nfc lines' mode' := by
  induction before generalizing lines mode with
  | nil => exact ⟨lines, mode, h.symm⟩
  | cons ref before ih =>
    cases lines with
    | nil => cases mode <;> cases h
    | cons line later => cases mode <;> exact ih (List.cons.inj h).2

theorem mem_readReference {nfc : JsString → JsString} {lines : List JsString} {mode : Option UInt16}
    (hmode : ∀ q, mode = some q → isQuote q = true) {ref : RefLine} (h : ref ∈ readReference nfc lines mode) :
    (∃ q line, isQuote q = true ∧ ref = insideLine q line) ∨ ∃ line later, ref = freshLine nfc line later := by
  induction lines generalizing mode with
  | nil => cases mode <;> cases h
  | cons line later ih =>
    cases mode with
    | some q =>
      rcases List.mem_cons.mp h with rfl | hrest
      · exact .inl ⟨q, line, hmode q rfl, rfl⟩
      · refine ih (fun q' hq' => ?_) hrest
        split_ifs at hq'
        cases hq'
        exact hmode _ rfl
    | none =>
      rcases List.mem_cons.mp h with rfl | hrest
      · exact .inr ⟨line, later, rfl⟩
      · refine ih (fun q' hq' => ?_) hrest
        obtain ⟨⟨q, rest⟩, hspanning, rfl⟩ := Option.map_eq_some_iff.mp hq'
        exact (openingQuote_eq_some.mp (spanningQuote_eq_some.mp hspanning).1).2

/-! ## Names and values of a line -/

/-- Normalization form C, as far as names depend on it: quotes stay, and nothing comes from nothing. -/
structure Normalizer where
  normalize : JsString → JsString
  nil : normalize [] = []
  quotes : ∀ s c, c ∈ s → isQuote c = true → c ∈ normalize s

theorem takeWhile_insideLine (q : UInt16) (line : JsString) :
    ((insideLine q line).text.takeWhile fun v => v.1 ≠ q) = (line.takeWhile fun c => c ≠ q).map (·, true) := by
  unfold insideLine
  dsimp only
  have hbefore : ∀ v ∈ (line.takeWhile fun c => c ≠ q).map (·, true), decide (v.1 ≠ q) = true := by
    intro v hv
    obtain ⟨c, hc, rfl⟩ := List.mem_map.mp hv
    exact @List.mem_takeWhile_imp _ (fun c => decide (c ≠ q)) _ _ hc
  cases hafter : line.dropWhile fun c => c ≠ q with
  | nil =>
    rw [List.map_nil, List.append_nil]
    exact List.takeWhile_eq_self_iff.mpr hbefore
  | cons c rest =>
    have hclosing : decide (c ≠ q) = false := @List.head_dropWhile_false _ (fun c => decide (c ≠ q)) _ _ _ hafter
    exact List.takeWhile_append_cons hbefore hclosing _

theorem freshLine_split (nfc : JsString → JsString) (line : JsString) (later : List JsString) :
    ∃ (before : JsString) (after : List (UInt16 × Bool)),
      (freshLine nfc line later).text = before.map (·, false) ++ after ∧ (after = [] ∨ 61 ∈ before) := by
  unfold freshLine
  dsimp only
  split
  · rename_i q rest hspanning
    obtain ⟨w, hw, hequals⟩ := valueOf_suffix (openingQuote_eq_some.mp (spanningQuote_eq_some.mp hspanning).1).1
    refine ⟨_, _, rfl, .inr ?_⟩
    rw [hw, take_opening]
    exact List.mem_append_left _ hequals
  · exact ⟨line, [], (List.append_nil _).symm, .inl rfl⟩

theorem nameSource_insideLine (nfc : Normalizer) {q : UInt16} (hq : isQuote q = true) {line name : JsString}
    (h : validName Prod.fst nfc.normalize (insideLine q line).text = some name) :
    ∃ u ∈ nameSource Prod.fst (insideLine q line).text, u.2 = true := by
  obtain ⟨raw, hread⟩ := validName_eq_some.mp h
  have hparts := readLine_assignment hread
  obtain ⟨w, w', eq, rest, hsplit, hw, -, -, -⟩ := hparts.parts
  cases hsource : nameSource Prod.fst (insideLine q line).text with
  | nil =>
    have hname := hparts.normalized
    rw [hsource, List.map_nil, nfc.nil] at hname
    have hvalid := hparts.valid
    rw [hname] at hvalid
    cases hvalid
  | cons u source =>
    have hnot : isQuote u.1 = false := by
      by_contra hquote
      have hmem := nfc.quotes ((nameSource Prod.fst (insideLine q line).text).map Prod.fst) u.1
        (List.mem_map_of_mem (by rw [hsource]; exact List.mem_cons_self)) (Bool.not_eq_false _ ▸ hquote)
      rw [← hparts.normalized] at hmem
      exact hquote (not_isQuote_of_isEnvName hparts.valid hmem)
    -- The name and what precedes it hold no quote, so they come before the closing one.
    have hbefore : u ∈ (insideLine q line).text.takeWhile fun v => v.1 ≠ q := by
      rw [hsplit, hsource, List.takeWhile_append_of_pos, List.cons_append, List.takeWhile_cons_of_pos]
      · exact List.mem_append_right _ List.mem_cons_self
      · exact decide_eq_true (ne_of_apply_ne isQuote (by rw [hnot, hq]; exact Bool.false_ne_true))
      · intro v hv
        exact decide_eq_true (ne_of_apply_ne isQuote (by rw [(hw v hv).1, hq]; exact Bool.false_ne_true))
    refine ⟨u, List.mem_cons_self, ?_⟩
    rw [takeWhile_insideLine] at hbefore
    obtain ⟨c, -, rfl⟩ := List.mem_map.mp hbefore
    rfl

theorem nameSource_freshLine {nfc : JsString → JsString} {line name : JsString} {later : List JsString}
    (h : validName Prod.fst nfc (freshLine nfc line later).text = some name) :
    ∀ u ∈ nameSource Prod.fst (freshLine nfc line later).text, u.2 = false := by
  obtain ⟨raw, hread⟩ := validName_eq_some.mp h
  have hparts := readLine_assignment hread
  obtain ⟨w, w', eq, rest, hsplit, hw, -, -, -⟩ := hparts.parts
  intro u hu
  have hbefore : u ∈ (freshLine nfc line later).text.takeWhile fun v => v.1 ≠ 61 := by
    rw [hsplit, List.takeWhile_append_of_pos, List.takeWhile_append_of_pos]
    · exact List.mem_append_right _ (List.mem_append_left _ hu)
    · exact fun v hv => decide_eq_true (hparts.separator v hv)
    · exact fun v hv => decide_eq_true (hw v hv).2
  obtain ⟨before, after, htext, hmem⟩ := freshLine_split nfc line later
  rw [htext] at hbefore
  rcases hmem with hnone | hequals
  · rw [hnone, List.append_nil] at hbefore
    obtain ⟨c, -, rfl⟩ := List.mem_map.mp ((List.takeWhile_sublist _).subset hbefore)
    rfl
  · rw [List.takeWhile_append_of_mem (List.mem_map_of_mem (f := (·, false)) hequals) (by simp)] at hbefore
    obtain ⟨c, -, rfl⟩ := List.mem_map.mp ((List.takeWhile_sublist _).subset hbefore)
    rfl

theorem parseValue_quoted {q : UInt16} {rest : JsString} (hquote : isQuote q = true)
    (h : (parseValue id (q :: rest)).faithful = true) :
    ∃ inner, rest = inner ++ [q] ∧ q ∉ inner ∧ (parseValue id (q :: rest)).text = inner := by
  simp only [parseValue, id_eq, hquote, if_true, Option.map_id, List.map_id] at h ⊢
  split_ifs at h ⊢ with hclosed
  simp only [Bool.and_eq_true, Bool.not_eq_true', List.contains_eq_mem, decide_eq_false_iff_not] at h
  cases rest using List.reverseRecOn with
  | nil => exact absurd hclosed.1 (by rw [List.length_singleton]; decide)
  | append_singleton inner last =>
    rw [← List.cons_append, List.getLast?_concat] at hclosed
    rw [List.dropLast_concat] at h ⊢
    exact ⟨inner, by rw [Option.some.inj hclosed.2], h.2, rfl⟩

/-- A value that the parser calls faithful is the reference value, on one line. -/
theorem referenceValue_of_faithful {nfc : JsString → JsString} {line name raw : JsString} (later : List JsString)
    (h : readLine id nfc line = .assignment name raw) (hfaithful : (parseValue id raw).faithful = true) :
    referenceValue line later = some [(parseValue id raw).text] ∧ spanningQuote line later = none := by
  have hparts := readLine_assignment h
  obtain ⟨w, w', eq, rest, hsplit, hw, hw', heq, rfl⟩ := hparts.parts
  have hvalue : valueOf line = some (rest.dropWhile isWhitespace) := by
    have hcomment := hparts.comment
    rw [Option.map_id, id_eq] at hcomment
    have hrest : line.dropWhile (fun c => decide (c ≠ 61)) = eq :: rest := by
      rw [hsplit, ← List.append_assoc, ← List.append_assoc, List.dropWhile_append_of_pos, List.dropWhile_cons_of_neg]
      · simpa using heq
      · intro c hc
        rcases List.mem_append.mp hc with hc | hc
        · rcases List.mem_append.mp hc with hc | hc
          · exact decide_eq_true (hw c hc).2
          · exact decide_eq_true (hparts.separator c hc)
        · exact decide_eq_true (ne_equals_of_isWhitespace (hw' c hc))
    unfold valueOf
    rw [if_neg (by rw [hparts.filled]; simpa using hcomment), hrest]
  have hraw : trim id rest = (rest.dropWhile isWhitespace).rdropWhile isWhitespace := rfl
  unfold referenceValue spanningQuote openingQuote
  rw [hvalue]
  cases hbegin : rest.dropWhile isWhitespace with
  | nil =>
    rw [hbegin, List.rdropWhile_nil] at hraw
    rw [hraw]
    exact ⟨rfl, rfl⟩
  | cons q tail =>
    have hspace : isWhitespace q = false := List.head_dropWhile_false hbegin
    rw [hbegin, List.rdropWhile_cons_of_not hspace] at hraw
    rw [hraw] at hfaithful ⊢
    obtain ⟨space, htail, hspaces⟩ := List.rdropWhile_split isWhitespace tail
    cases hquote : isQuote q with
    | false =>
      have hagain : trim id (q :: tail) = q :: tail.rdropWhile isWhitespace := by
        rw [← hraw, ← hbegin]
        exact List.trimBy_dropWhile rest
      simp only [hquote, parseValue, id_eq, Bool.false_eq_true, if_false, Option.map_some, hagain, and_true]
    | true =>
      obtain ⟨inner, hinner, hnot, htext⟩ := parseValue_quoted hquote hfaithful
      rw [htext]
      have hq : q ∈ tail := by
        rw [htail, hinner]
        simp
      have hpiece : (tail.takeWhile fun c => c ≠ q) = inner := by
        rw [htail, hinner, List.append_assoc]
        refine List.takeWhile_append_cons (fun c hc => decide_eq_true ?_) (by simp) space
        rintro rfl
        exact hnot hc
      have hclosed : ¬(q ∉ tail ∧ ∃ l ∈ later, q ∈ l) := fun h => h.1 hq
      simp only [hquote, if_true, quotedPieces, if_pos hq, hpiece, if_neg hclosed, and_self]

theorem mem_of_mem_parseValue {α : Type} {code : α → UInt16} {raw : List α} {u : α} (h : u ∈ (parseValue code raw).text) :
    u ∈ raw := by
  have hstrip : ∀ l : List α, (stripComment code l).Sublist l := by
    intro l
    induction l with
    | nil => exact List.Sublist.refl _
    | cons v rest ih =>
      unfold stripComment
      split_ifs
      · exact List.nil_sublist _
      · exact ih.cons_cons v
  have htrim : ∀ l : List α, u ∈ trim code (stripComment code l) → u ∈ l := fun l hu =>
    (hstrip l).subset (List.mem_of_mem_trimBy hu)
  cases raw with
  | nil => exact htrim [] h
  | cons first rest =>
    simp only [parseValue] at h
    split_ifs at h
    · exact List.mem_cons_of_mem _ (List.dropLast_subset _ h)
    · exact h
    · exact htrim _ h

/-- A faithful value read from a line that begins between values is its reference value and from outside the others. -/
theorem faithful_freshLine {nfc : JsString → JsString} {line name : JsString} {later : List JsString}
    {raw : List (UInt16 × Bool)} (h : readLine Prod.fst nfc (freshLine nfc line later).text = .assignment name raw)
    (hfaithful : (parseValue Prod.fst raw).faithful = true) :
    (∀ u ∈ (parseValue Prod.fst raw).text, u.2 = false) ∧
      (freshLine nfc line later).assignment = some (name, [(parseValue Prod.fst raw).text.map Prod.fst]) := by
  have hplain := readLine_code Prod.fst nfc (freshLine nfc line later).text
  rw [freshLine_text, h] at hplain
  have hplain : readLine id nfc line = .assignment name (raw.map Prod.fst) := hplain
  obtain ⟨htext, hsame⟩ := parseValue_code Prod.fst raw
  obtain ⟨hvalue, hspanning⟩ := referenceValue_of_faithful later hplain (hsame.trans hfaithful)
  constructor
  · intro u hu
    obtain ⟨w, w', eq, rest, hsplit, -, -, -, hraw⟩ := (readLine_assignment h).parts
    have hmem : u ∈ (freshLine nfc line later).text := by
      rw [hsplit]
      have hrest := mem_of_mem_parseValue hu
      rw [hraw] at hrest
      simp [List.mem_of_mem_trimBy hrest]
    unfold freshLine at hmem
    rw [hspanning] at hmem
    obtain ⟨c, -, rfl⟩ := List.mem_map.mp hmem
    rfl
  · have hname := (readLine_assignment hplain).normalized
    rw [List.map_id] at hname
    unfold freshLine
    rw [hvalue, Option.map_some, htext, ← hname]

end Maruhi.EnvFile
