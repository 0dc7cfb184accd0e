import Maruhi.EnvFile.Parse

/-!
# What the parser reads from lines

The parser commutes with forgetting marks, where the parts of an assignment line stand, and what a whole run collects.
-/

namespace Maruhi.EnvFile
open Text

/-! ## Characters -/

theorem isQuote_of_isWhitespace {c : UInt16} (h : isWhitespace c = true) : isQuote c = false := by
  by_contra hquote
  simp only [isQuote, Bool.not_eq_false, Bool.or_eq_true, decide_eq_true_eq] at hquote
  rcases hquote with rfl | rfl <;> exact absurd h (by decide)

theorem ne_equals_of_isWhitespace {c : UInt16} (h : isWhitespace c = true) : c ≠ 61 := by
  rintro rfl
  exact absurd h (by decide)

theorem not_isQuote_of_isEnvName {name : JsString} (h : isEnvName name = true) {c : UInt16} (hc : c ∈ name) :
    isQuote c = false := by
  by_contra hquote
  simp only [isQuote, Bool.not_eq_false, Bool.or_eq_true, decide_eq_true_eq] at hquote
  cases name with
  | nil => cases hc
  | cons d rest =>
    simp only [isEnvName, Bool.and_eq_true, List.all_eq_true] at h
    rcases List.mem_cons.mp hc with rfl | hrest
    · rcases hquote with rfl | rfl <;> exact absurd h.1 (by decide)
    · have hpart := h.2 c hrest
      rcases hquote with rfl | rfl <;> exact absurd hpart (by decide)

/-! ## Forgetting marks -/

section Forget
variable {α β : Type} (code : α → UInt16)

def EnvLine.map (f : α → β) : EnvLine α → EnvLine β
  | blank => .blank
  | comment text => .comment (text.map f)
  | skipped reason => .skipped reason
  | assignment name raw => .assignment name (raw.map f)

def EnvFileEntry.map (f : α → β) (e : EnvFileEntry α) : EnvFileEntry β where
  name := e.name
  line := e.line
  value := e.value.map f
  valueFaithful := e.valueFaithful
  descriptionCandidate := e.descriptionCandidate.map f

def ParseState.map (f : α → β) (s : ParseState α) : ParseState β where
  entries := s.entries.map (·.map f)
  skipped := s.skipped
  seen := s.seen
  comments := s.comments.map (·.map f)

theorem trim_code (text : List α) : trim id (text.map code) = (trim code text).map code :=
  List.trimBy_map code _ text

theorem startsComment_code (text : List α) : startsComment id (text.map code) = startsComment code text := by
  cases text with
  | nil => rfl
  | cons u rest =>
    simp only [List.map_cons, startsComment, id_eq, List.dropWhile_map, Function.comp_def]
    cases rest.dropWhile fun v => isWhitespace (code v) with
    | nil => rfl
    | cons v tail => simp only [List.map_cons, List.all_map, Function.comp_def]

theorem stripComment_code (text : List α) : stripComment id (text.map code) = (stripComment code text).map code := by
  induction text with
  | nil => rfl
  | cons u rest ih =>
    have hstarts := startsComment_code code (u :: rest)
    rw [List.map_cons] at hstarts ⊢
    unfold stripComment
    rw [hstarts, ih]
    split_ifs <;> rfl

theorem parseValue_code (raw : List α) : (parseValue id (raw.map code)).text = (parseValue code raw).text.map code ∧
    (parseValue id (raw.map code)).faithful = (parseValue code raw).faithful := by
  cases raw with
  | nil => exact ⟨rfl, rfl⟩
  | cons first rest =>
    have hstrip := stripComment_code code (first :: rest)
    rw [List.map_cons] at hstrip ⊢
    have hlast : (code first :: rest.map code).getLast?.map id = (first :: rest).getLast?.map code := by
      rw [← List.map_cons, List.getLast?_map, Option.map_id, id_eq]
    unfold parseValue
    simp only [id_eq, hlast, hstrip, trim_code, List.length_cons, List.length_map, List.map_id]
    split_ifs
    · simp [List.map_dropLast]
    · exact ⟨rfl, rfl⟩
    · exact ⟨rfl, rfl⟩

theorem stripHashes_code (line : List α) : stripHashes id (line.map code) = (stripHashes code line).map code := by
  unfold stripHashes
  rw [List.dropWhile_map]
  simp only [Function.comp_def, id_eq]
  cases line.dropWhile fun u => code u = 35 with
  | nil => rfl
  | cons u rest =>
    simp only [List.map_cons]
    split_ifs <;> rfl

theorem assignmentOf_code (line : List α) : assignmentOf id (line.map code) = (assignmentOf code line).map code := by
  unfold assignmentOf
  rw [List.map_id, ← List.map_drop, trim_code]
  split_ifs <;> rfl

theorem nameSource_code (line : List α) : nameSource id (line.map code) = (nameSource code line).map code := by
  unfold nameSource
  rw [trim_code, assignmentOf_code, List.takeWhile_map, trim_code]
  rfl

theorem readLine_code (nfc : JsString → JsString) (line : List α) :
    readLine id nfc (line.map code) = (readLine code nfc line).map code := by
  unfold readLine
  simp only [trim_code, nameSource_code, assignmentOf_code, stripHashes_code, List.map_id, List.isEmpty_map, List.head?_map,
    Option.map_id, id_eq, List.dropWhile_map, Function.comp_def]
  by_cases hblank : (trim code line).isEmpty = true
  · rw [if_pos hblank, if_pos hblank]
    rfl
  by_cases hcomment : (trim code line).head?.map code = some 35
  · rw [if_neg hblank, if_neg hblank, if_pos hcomment, if_pos hcomment]
    rfl
  rw [if_neg hblank, if_neg hblank, if_neg hcomment, if_neg hcomment]
  cases (assignmentOf code (trim code line)).dropWhile fun u => code u ≠ 61 with
  | nil => rfl
  | cons eq rest =>
    simp only [List.map_cons, trim_code]
    split_ifs <;> rfl

theorem intercalate_map (f : α → β) (space : α) (texts : List (List α)) :
    (List.intercalate [space] texts).map f = List.intercalate [f space] (texts.map (·.map f)) := by
  induction texts with
  | nil => rfl
  | cons text rest ih =>
    cases rest with
    | nil => simp
    | cons text' rest =>
      rw [List.map_cons, List.map_cons, List.intercalate_cons_cons, List.intercalate_cons_cons, List.map_append,
        List.map_append, ih]
      rfl

theorem entryOf_code (space : α) (comments : List (List α)) (lineNumber : Nat) (name : JsString) (raw : List α) :
    entryOf id (code space) (comments.map (·.map code)) lineNumber name (raw.map code) =
      (entryOf code space comments lineNumber name raw).map code := by
  obtain ⟨htext, hfaithful⟩ := parseValue_code code raw
  unfold entryOf EnvFileEntry.map
  rw [htext, hfaithful, ← intercalate_map, trim_code]

theorem parseLine_code (nfc : JsString → JsString) (space : α) (state : ParseState α) (lineNumber : Nat) (line : List α) :
    parseLine id nfc (code space) (state.map code) lineNumber (line.map code) =
      (parseLine code nfc space state lineNumber line).map code := by
  unfold parseLine
  rw [readLine_code]
  cases readLine code nfc line with
  | blank => rfl
  | comment text => simp [EnvLine.map, ParseState.map]
  | skipped reason => rfl
  | assignment name raw =>
    dsimp only [EnvLine.map]
    rw [show (state.map code).seen = state.seen from rfl, show (state.map code).comments = state.comments.map (·.map code) from rfl,
      entryOf_code]
    split_ifs
    · rfl
    · simp [ParseState.map]

theorem parseLines_code (nfc : JsString → JsString) (space : α) (lines : List (List α)) :
    parseLines id nfc (code space) (lines.map (·.map code)) = (parseLines code nfc space lines).map code := by
  unfold parseLines
  rw [List.zipIdx_map, List.foldl_map]
  have hinitial : (ParseState.initial : ParseState UInt16) = (ParseState.initial : ParseState α).map code := rfl
  rw [hinitial]
  exact @List.foldl_hom (ParseState α) (ParseState UInt16) (List α × Nat) (ParseState.map code)
    (fun state line => parseLine code nfc space state line.2 line.1)
    (fun state line => parseLine id nfc (code space) state line.2 (line.1.map code)) _ _
    fun state line => parseLine_code code nfc space state line.2 line.1

end Forget

/-! ## Where the parts of a line stand -/

section Parts
variable {α : Type} {code : α → UInt16}

/-- Not a quote and not the separator. -/
def Inert (c : UInt16) : Prop := isQuote c = false ∧ c ≠ 61

theorem inert_of_isWhitespace {c : UInt16} (h : isWhitespace c = true) : Inert c :=
  ⟨isQuote_of_isWhitespace h, ne_equals_of_isWhitespace h⟩

theorem assignmentOf_split (code : α → UInt16) (line : List α) : ∃ w w', line = w ++ (assignmentOf code line ++ w') ∧
    (∀ u ∈ w, Inert (code u)) ∧ ∀ u ∈ w', isWhitespace (code u) = true := by
  unfold assignmentOf
  split_ifs with hexport
  · obtain ⟨w, w', hsplit, hw, hw'⟩ := List.trimBy_split (fun u => isWhitespace (code u)) (line.drop (lit "export ").length)
    refine ⟨line.take (lit "export ").length ++ w, w', ?_, fun u hu => ?_, hw'⟩
    · rw [List.append_assoc]
      conv_lhs => rw [← List.take_append_drop (lit "export ").length line, hsplit]
      rfl
    · rcases List.mem_append.mp hu with htake | hspace
      · have hleads := List.prefix_iff_eq_take.mp (List.isPrefixOf_iff_prefix.mp hexport)
        have hmem : code u ∈ lit "export " := by
          rw [hleads, ← List.map_take]
          exact List.mem_map_of_mem htake
        have hall : (lit "export ").all (fun c => !isQuote c && c != 61) = true := by decide
        have hinert := List.all_eq_true.mp hall _ hmem
        simp only [Bool.and_eq_true, Bool.not_eq_true', bne_iff_ne] at hinert
        exact hinert
      · exact inert_of_isWhitespace (hw u hspace)
  · exact ⟨[], [], by simp, by simp, by simp⟩

/-- The parts of a line that reads as an assignment. -/
structure AssignmentParts (code : α → UInt16) (nfc : JsString → JsString) (line : List α) (name : JsString) (raw : List α) :
    Prop where
  parts : ∃ w w' eq rest, line = w ++ (nameSource code line ++ (w' ++ eq :: rest)) ∧ (∀ u ∈ w, Inert (code u)) ∧
    (∀ u ∈ w', isWhitespace (code u) = true) ∧ code eq = 61 ∧ raw = trim code rest
  separator : ∀ u ∈ nameSource code line, code u ≠ 61
  normalized : name = nfc ((nameSource code line).map code)
  valid : isEnvName name = true
  filled : (trim code line).isEmpty = false
  comment : (trim code line).head?.map code ≠ some 35

theorem readLine_assignment {nfc : JsString → JsString} {line : List α} {name : JsString} {raw : List α}
    (h : readLine code nfc line = .assignment name raw) : AssignmentParts code nfc line name raw := by
  unfold readLine at h
  dsimp only at h
  split at h
  · cases h
  rename_i hfilled
  split at h
  · cases h
  rename_i hcomment
  split at h
  · cases h
  rename_i eq rest hrest
  split at h
  · cases h
  rename_i hvalid
  simp only [EnvLine.assignment.injEq] at h
  obtain ⟨hname, rfl⟩ := h
  simp only [Bool.or_eq_true, Bool.not_eq_true', decide_eq_true_eq, not_or, Bool.not_eq_false, hname] at hvalid
  have hmem : ∀ u ∈ nameSource code line, code u ≠ 61 := by
    intro u hu
    simpa using List.mem_takeWhile_imp (List.mem_of_mem_trimBy hu)
  refine ⟨?_, hmem, hname.symm, hvalid.1, by simpa using hfilled, hcomment⟩
  obtain ⟨w₁, w₂, htrim, hw₁, hw₂⟩ := List.trimBy_split (fun u => isWhitespace (code u)) line
  obtain ⟨w₃, w₄, hassignment, hw₃, hw₄⟩ := assignmentOf_split code (trim code line)
  obtain ⟨w₅, w₆, hname', hw₅, hw₆⟩ := List.trimBy_split (fun u => isWhitespace (code u))
    ((assignmentOf code (trim code line)).takeWhile fun u => code u ≠ 61)
  have hwhole : assignmentOf code (trim code line) = w₅ ++ (nameSource code line ++ (w₆ ++ eq :: rest)) := by
    have hcut := List.takeWhile_append_dropWhile (p := fun u => decide (code u ≠ 61))
      (l := assignmentOf code (trim code line))
    rw [hrest, hname'] at hcut
    rw [← hcut, List.append_assoc, List.append_assoc]
    rfl
  refine ⟨w₁ ++ (w₃ ++ w₅), w₆, eq, rest ++ (w₄ ++ w₂), ?_, ?_, hw₆, ?_, ?_⟩
  · conv_lhs => rw [htrim]
    rw [show line.trimBy (fun u => isWhitespace (code u)) = trim code line from rfl, hassignment, hwhole]
    simp
  · intro u hu
    simp only [List.mem_append] at hu
    rcases hu with hu | hu | hu
    · exact inert_of_isWhitespace (hw₁ u hu)
    · exact hw₃ u hu
    · exact inert_of_isWhitespace (hw₅ u hu)
  · simpa using List.head_dropWhile_false hrest
  · refine (List.trimBy_append_right (fun u hu => ?_) rest).symm
    rcases List.mem_append.mp hu with hu | hu
    · exact hw₄ u hu
    · exact hw₂ u hu

theorem commentText_sublist {nfc : JsString → JsString} {line text : List α} (h : readLine code nfc line = .comment text) :
    text.Sublist line ∧ (trim code line).head?.map code = some 35 := by
  unfold readLine at h
  dsimp only at h
  split at h
  · cases h
  split at h
  · rename_i hcomment
    cases h
    refine ⟨?_, hcomment⟩
    have hleads : trim code line <+: line.dropWhile _ := List.rdropWhile_prefix _ _
    have htrim : (trim code line).Sublist line := hleads.sublist.trans (List.dropWhile_sublist _)
    refine List.Sublist.trans ?_ htrim
    have hdrop : ((trim code line).dropWhile fun u => code u = 35).Sublist (trim code line) := List.dropWhile_sublist _
    unfold stripHashes
    split
    · exact List.nil_sublist _
    · rename_i u rest hrest
      rw [hrest] at hdrop
      split_ifs
      · exact (List.sublist_cons_self u rest).trans hdrop
      · exact hdrop
  · split at h
    · cases h
    · split at h <;> cases h

end Parts

/-! ## What a run collects -/

section Run
variable {α : Type} (code : α → UInt16) (nfc : JsString → JsString)

/-- The name of an assignment line that the parser accepts. -/
def validName (line : List α) : Option JsString :=
  match readLine code nfc line with
  | .assignment name _ => some name
  | _ => none

/-- What a comment line says. -/
def commentOf (line : List α) : Option (List α) :=
  match readLine code nfc line with
  | .comment text => some text
  | _ => none

variable {code nfc}

theorem validName_eq_some {line : List α} {name : JsString} :
    validName code nfc line = some name ↔ ∃ raw, readLine code nfc line = .assignment name raw := by
  unfold validName
  cases readLine code nfc line <;> simp

theorem commentOf_eq_some {line text : List α} :
    commentOf code nfc line = some text ↔ readLine code nfc line = .comment text := by
  unfold commentOf
  cases readLine code nfc line <;> simp

theorem validName_of_comment {line text : List α} (h : commentOf code nfc line = some text) : validName code nfc line = none := by
  unfold validName
  rw [commentOf_eq_some.mp h]

variable (space : α)

theorem parseLines_snoc (lines : List (List α)) (line : List α) :
    parseLines code nfc space (lines ++ [line]) =
      parseLine code nfc space (parseLines code nfc space lines) (lines.length + 1) line := by
  unfold parseLines
  rw [List.zipIdx_append, List.foldl_append, Nat.add_comm]
  rfl

theorem has_seen (lines : List (List α)) (name : JsString) :
    (parseLines code nfc space lines).seen.has name = true ↔ ∃ line ∈ lines, validName code nfc line = some name := by
  induction lines using List.reverseRecOn with
  | nil => simp [parseLines, ParseState.initial, OrderedMap.has, OrderedMap.get?_empty]
  | append_singleton lines line ih =>
    rw [parseLines_snoc]
    simp only [List.mem_append, List.mem_singleton, or_and_right, exists_or, exists_eq_left, ← ih]
    unfold parseLine validName
    cases readLine code nfc line with
    | assignment other raw =>
      dsimp only
      split_ifs with hseen
      · refine ⟨Or.inl, fun h => h.elim id fun heq => ?_⟩
        rwa [← Option.some.inj heq]
      · dsimp only
        rw [OrderedMap.has_set]
        exact ⟨fun h => h.elim (fun heq => .inr (congrArg some heq.symm)) .inl,
          fun h => h.elim .inr fun heq => .inl (Option.some.inj heq).symm⟩
    | _ => simp

theorem exists_split_snoc {lines : List (List α)} {line : List α} {P : List (List α) → List α → Prop} :
    (∃ before l after, lines ++ [line] = before ++ l :: after ∧ P before l) ↔
      (∃ before l after, lines = before ++ l :: after ∧ P before l) ∨ P lines line := by
  constructor
  · rintro ⟨before, l, after, hsplit, hP⟩
    cases after using List.reverseRecOn with
    | nil =>
      obtain ⟨rfl, hl⟩ := List.append_inj' hsplit rfl
      cases hl
      exact .inr hP
    | append_singleton after last =>
      rw [← List.cons_append, ← List.append_assoc] at hsplit
      exact .inl ⟨before, l, after, (List.append_inj' hsplit rfl).1, hP⟩
  · rintro (⟨before, l, after, rfl, hP⟩ | hP)
    · exact ⟨before, l, after ++ [line], by simp, hP⟩
    · exact ⟨lines, line, [], rfl, hP⟩

theorem mem_entries {lines : List (List α)} {e : EnvFileEntry α} : e ∈ (parseLines code nfc space lines).entries ↔
    ∃ before line after, lines = before ++ line :: after ∧ ∃ name raw, readLine code nfc line = .assignment name raw ∧
      (parseLines code nfc space before).seen.has name = false ∧
      e = entryOf code space (parseLines code nfc space before).comments (before.length + 1) name raw := by
  induction lines using List.reverseRecOn with
  | nil => simp [parseLines, ParseState.initial]
  | append_singleton lines line ih =>
    rw [parseLines_snoc, exists_split_snoc, ← ih]
    unfold parseLine
    cases readLine code nfc line with
    | assignment name raw =>
      dsimp only
      split_ifs with hseen <;> simp [hseen]
    | _ => simp

theorem mem_skipped_named {lines : List (List α)} {x : EnvFileSkippedLine} (hname : x.name ≠ none) :
    x ∈ (parseLines code nfc space lines).skipped ↔
    ∃ before line after, lines = before ++ line :: after ∧ ∃ name raw, readLine code nfc line = .assignment name raw ∧
      (parseLines code nfc space before).seen.has name = true ∧ x = ⟨before.length + 1, .duplicateName, some name⟩ := by
  induction lines using List.reverseRecOn with
  | nil => simp [parseLines, ParseState.initial]
  | append_singleton lines line ih =>
    rw [parseLines_snoc, exists_split_snoc, ← ih]
    unfold parseLine
    cases readLine code nfc line with
    | assignment name raw =>
      dsimp only
      split_ifs with hseen <;> simp [hseen]
    | skipped reason =>
      have hne : x ≠ ⟨lines.length + 1, reason, none⟩ := fun h => hname (by rw [h])
      simp [hne]
    | _ => simp

theorem entries_nodup (lines : List (List α)) : ((parseLines code nfc space lines).entries.map EnvFileEntry.name).Nodup ∧
    ∀ e ∈ (parseLines code nfc space lines).entries, (parseLines code nfc space lines).seen.has e.name = true := by
  induction lines using List.reverseRecOn with
  | nil => exact ⟨List.nodup_nil, fun e he => nomatch he⟩
  | append_singleton lines line ih =>
    obtain ⟨hnodup, hall⟩ := ih
    rw [parseLines_snoc]
    unfold parseLine
    cases readLine code nfc line with
    | assignment name raw =>
      dsimp only
      split_ifs with hseen
      · exact ⟨hnodup, hall⟩
      · dsimp only
        constructor
        · rw [List.map_append]
          refine List.nodup_append.mpr ⟨hnodup, List.nodup_singleton _, ?_⟩
          rintro _ hn _ hn' rfl
          obtain ⟨e, he, heq⟩ := List.mem_map.mp hn
          rw [List.map_singleton, List.mem_singleton] at hn'
          have hhas := hall e he
          rw [heq, hn'] at hhas
          exact hseen hhas
        · intro e he
          rw [OrderedMap.has_set]
          rcases List.mem_append.mp he with hold | hnew
          · exact .inr (hall e hold)
          · exact .inl (congrArg EnvFileEntry.name (List.mem_singleton.mp hnew))
    | _ => exact ⟨hnodup, hall⟩

/-- How many records a run has of a line. -/
def recordsAt (state : ParseState α) (lineNumber : Nat) : Nat :=
  state.entries.countP (fun e => e.line = lineNumber) + state.skipped.countP fun x => x.line = lineNumber

/-- Whether a line asks for a record. -/
def EnvLine.recorded : EnvLine α → Bool
  | skipped _ => true
  | assignment _ _ => true
  | _ => false

theorem recorded_of_filled {line : List α} (hfilled : trim code line ≠ []) (hcomment : (trim code line).head?.map code ≠ some 35) :
    (readLine code nfc line).recorded = true := by
  unfold readLine
  dsimp only
  rw [if_neg (by rwa [List.isEmpty_iff]), if_neg hcomment]
  split
  · rfl
  · split_ifs <;> rfl

theorem recordsAt_snoc (lines : List (List α)) (line : List α) (n : Nat) :
    recordsAt (parseLines code nfc space (lines ++ [line])) n = recordsAt (parseLines code nfc space lines) n +
      if (readLine code nfc line).recorded = true ∧ n = lines.length + 1 then 1 else 0 := by
  rw [parseLines_snoc]
  have hone : ∀ p : Prop, ∀ [Decidable p], (p ↔ n = lines.length + 1) →
      (if decide p = true then 1 else 0) = if n = lines.length + 1 then 1 else 0 := by
    intro p _ hp
    simp only [decide_eq_true_eq, hp]
  unfold parseLine recordsAt
  cases readLine code nfc line with
  | assignment name raw =>
    dsimp only
    by_cases hseen : (parseLines code nfc space lines).seen.has name = true
    · rw [if_pos hseen]
      simp only [List.countP_append, List.countP_singleton, EnvLine.recorded, true_and, hone _ eq_comm, Nat.add_assoc]
    · rw [if_neg hseen]
      simp only [List.countP_append, List.countP_singleton, EnvLine.recorded, true_and, entryOf, hone _ eq_comm,
        Nat.add_right_comm]
  | skipped reason =>
    simp only [List.countP_append, List.countP_singleton, EnvLine.recorded, true_and, hone _ eq_comm, Nat.add_assoc]
  | _ => simp [EnvLine.recorded]

theorem recordsAt_late {lines : List (List α)} {n : Nat} (h : lines.length < n) :
    recordsAt (parseLines code nfc space lines) n = 0 := by
  induction lines using List.reverseRecOn with
  | nil => rfl
  | append_singleton lines line ih =>
    rw [List.length_append, List.length_singleton] at h
    rw [recordsAt_snoc, ih (by omega), if_neg fun hlast => by have := hlast.2; omega]

theorem recordsAt_line {lines : List (List α)} {i : Nat} {line : List α} (h : lines[i]? = some line) :
    recordsAt (parseLines code nfc space lines) (i + 1) = if (readLine code nfc line).recorded = true then 1 else 0 := by
  induction lines using List.reverseRecOn with
  | nil => cases h
  | append_singleton lines last ih =>
    rw [recordsAt_snoc]
    rcases lt_trichotomy i lines.length with hlt | rfl | hgt
    · rw [List.getElem?_append_left hlt] at h
      have hearlier : ¬((readLine code nfc last).recorded = true ∧ i + 1 = lines.length + 1) := fun hlast => by omega
      rw [ih h, if_neg hearlier, Nat.add_zero]
    · rw [List.getElem?_concat_length] at h
      cases h
      rw [recordsAt_late space (by omega), Nat.zero_add]
      simp
    · rw [List.getElem?_eq_none (by rw [List.length_append, List.length_singleton]; omega)] at h
      cases h

/-! ## The comments before a line -/

theorem comments_block (lines : List (List α)) : ∃ before block, lines = before ++ block ∧
    block.map (commentOf code nfc) = (parseLines code nfc space lines).comments.map some := by
  induction lines using List.reverseRecOn with
  | nil => exact ⟨[], [], rfl, rfl⟩
  | append_singleton lines line ih =>
    obtain ⟨before, block, rfl, hblock⟩ := ih
    cases hread : readLine code nfc line with
    | comment text =>
      refine ⟨before, block ++ [line], (List.append_assoc _ _ _), ?_⟩
      rw [parseLines_snoc, List.map_append, hblock]
      unfold parseLine
      rw [hread]
      simp [commentOf, hread]
    | assignment name raw =>
      refine ⟨before ++ block ++ [line], [], (List.append_nil _).symm, ?_⟩
      rw [parseLines_snoc]
      unfold parseLine
      rw [hread]
      dsimp only
      split_ifs <;> rfl
    | _ =>
      refine ⟨before ++ block ++ [line], [], (List.append_nil _).symm, ?_⟩
      rw [parseLines_snoc]
      unfold parseLine
      rw [hread]
      rfl

theorem comments_suffix (before block : List (List α)) {texts : List (List α)}
    (h : block.map (commentOf code nfc) = texts.map some) :
    texts <:+ (parseLines code nfc space (before ++ block)).comments := by
  induction block using List.reverseRecOn generalizing texts with
  | nil =>
    rw [List.map_nil, eq_comm, List.map_eq_nil_iff] at h
    rw [h]
    exact List.nil_suffix
  | append_singleton block line ih =>
    cases texts using List.reverseRecOn with
    | nil => simp at h
    | append_singleton texts text =>
      rw [List.map_append, List.map_append] at h
      obtain ⟨hblock, hline⟩ := List.append_inj' h rfl
      obtain ⟨w, hw⟩ := ih hblock
      simp only [List.map_cons, List.map_nil, List.cons.injEq, and_true] at hline
      rw [← List.append_assoc, parseLines_snoc]
      unfold parseLine
      rw [commentOf_eq_some.mp hline]
      exact ⟨w, by rw [← List.append_assoc, hw]⟩

end Run

end Maruhi.EnvFile
