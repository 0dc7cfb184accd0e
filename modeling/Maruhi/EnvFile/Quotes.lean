import Maruhi.EnvFile.Reference

/-!
# What leaves a quoted value

A line that continues a quoted value is read as a line of its own: exactly when it reads as an assignment, or as a
comment right before one, its text leaves the value.
-/

namespace Maruhi.EnvFile
open Text

/-! ## Comments before an assignment -/

section Block
variable {nfc : JsString → JsString}

theorem freshLine_comment {line : JsString} {later : List JsString} {text : List (UInt16 × Bool)}
    (h : commentOf Prod.fst nfc (freshLine nfc line later).text = some text) :
    spanningQuote line later = none ∧ ∀ u ∈ text, u.2 = false := by
  obtain ⟨hsub, hhead⟩ := commentText_sublist (commentOf_eq_some.mp h)
  have hcomment : (trim id line).head? = some 35 := by
    conv_lhs => rw [← freshLine_text nfc line later, trim_code, List.head?_map]
    exact hhead
  have hspanning : spanningQuote line later = none := by
    unfold spanningQuote openingQuote valueOf
    rw [if_pos (.inr hcomment)]
  refine ⟨hspanning, fun u hu => ?_⟩
  have hmem := hsub.subset hu
  unfold freshLine at hmem
  rw [hspanning] at hmem
  obtain ⟨c, -, rfl⟩ := List.mem_map.mp hmem
  rfl

theorem freshBlock_unmarked {lines : List JsString} {block after : List RefLine} {texts : List (List (UInt16 × Bool))}
    (h : readReference nfc lines none = block ++ after)
    (htexts : block.map (fun ref => commentOf Prod.fst nfc ref.text) = texts.map some) :
    ∀ text ∈ texts, ∀ u ∈ text, u.2 = false := by
  induction block generalizing lines texts with
  | nil =>
    rw [List.map_nil, eq_comm, List.map_eq_nil_iff] at htexts
    rw [htexts]
    exact fun text ht => nomatch ht
  | cons ref block ih =>
    cases texts with
    | nil => cases htexts
    | cons text texts =>
      obtain ⟨hone, hrest⟩ := List.cons.inj htexts
      cases lines with
      | nil => cases h
      | cons line later =>
        rw [readReference] at h
        obtain ⟨rfl, hblock⟩ := List.cons.inj h
        obtain ⟨hspanning, hunmarked⟩ := freshLine_comment hone
        rw [hspanning] at hblock
        exact List.forall_mem_cons.mpr ⟨hunmarked, ih hblock hrest⟩

theorem mem_intercalate {α : Type} {space : α} {texts : List (List α)} {u : α} (h : u ∈ List.intercalate [space] texts) :
    u = space ∨ ∃ text ∈ texts, u ∈ text := by
  induction texts with
  | nil => cases h
  | cons text rest ih =>
    cases rest with
    | nil =>
      rw [List.intercalate_singleton] at h
      exact .inr ⟨text, List.mem_cons_self, h⟩
    | cons text' rest =>
      rw [List.intercalate_cons_cons, List.mem_append, List.mem_append, List.mem_singleton] at h
      rcases h with (h | h) | h
      · exact .inr ⟨text, List.mem_cons_self, h⟩
      · exact .inl h
      · exact (ih h).imp_right fun ⟨t, ht, hu⟩ => ⟨t, List.mem_cons_of_mem _ ht, hu⟩

theorem mem_intercalate_of_mem {α : Type} {space : α} {texts : List (List α)} {text : List α} (ht : text ∈ texts) {u : α}
    (hu : u ∈ text) : u ∈ List.intercalate [space] texts := by
  induction texts with
  | nil => cases ht
  | cons first rest ih =>
    cases rest with
    | nil =>
      rw [List.intercalate_singleton, ← List.mem_singleton.mp ht]
      exact hu
    | cons text' rest =>
      rw [List.intercalate_cons_cons]
      rcases List.mem_cons.mp ht with rfl | hrest
      · exact List.mem_append_left _ (List.mem_append_left _ hu)
      · exact List.mem_append_right _ (ih hrest)

theorem block_onlyLeads {lines : List JsString} {mode : Option UInt16} {block after : List RefLine}
    {texts : List (List (UInt16 × Bool))} (h : readReference nfc lines mode = block ++ after)
    (htexts : block.map (fun ref => commentOf Prod.fst nfc ref.text) = texts.map some)
    (hspace : ∀ text ∈ texts, ∀ u ∈ text, u.2 = true → isWhitespace u.1 = true) :
    List.OnlyLeads (fun u => isWhitespace u.1) Prod.snd (List.intercalate [(32, false)] texts) := by
  induction block generalizing lines mode texts with
  | nil =>
    rw [List.map_nil, eq_comm, List.map_eq_nil_iff] at htexts
    rw [htexts]
    exact fun u hu => nomatch hu
  | cons ref block ih =>
    cases texts with
    | nil => cases htexts
    | cons text texts =>
      cases lines with
      | nil => cases mode <;> cases h
      | cons line later =>
        cases mode with
        | none =>
          refine List.onlyLeads_of_unmarked fun u hu => ?_
          rcases mem_intercalate hu with rfl | ⟨t, ht, hu⟩
          · rfl
          · exact freshBlock_unmarked h htexts t ht u hu
        | some q =>
          obtain ⟨hone, hrest⟩ := List.cons.inj htexts
          rw [readReference] at h
          obtain ⟨rfl, hblock⟩ := List.cons.inj h
          obtain ⟨hsub, -⟩ := commentText_sublist (commentOf_eq_some.mp hone)
          -- What is marked in the comment comes before what is not.
          obtain ⟨inner, outer, rfl, hinner, houter⟩ := List.sublist_append_iff.mp hsub
          have hlead : ∀ u ∈ inner, isWhitespace u.1 = true := by
            intro u hu
            obtain ⟨c, -, rfl⟩ := List.mem_map.mp (hinner.subset hu)
            exact hspace _ List.mem_cons_self _ (List.mem_append_left _ hu) rfl
          have hplain : ∀ u ∈ outer, u.2 = false := by
            intro u hu
            obtain ⟨c, -, rfl⟩ := List.mem_map.mp (houter.subset hu)
            rfl
          have hfront : List.intercalate [(32, false)] ((inner ++ outer) :: texts) =
              inner ++ List.intercalate [(32, false)] (outer :: texts) := by
            cases texts with
            | nil => rw [List.intercalate_singleton, List.intercalate_singleton]
            | cons t texts =>
              rw [List.intercalate_cons_cons, List.intercalate_cons_cons, List.append_assoc, List.append_assoc,
                List.append_assoc]
          rw [hfront]
          refine List.OnlyLeads.append_left hlead ?_
          by_cases hq : q ∈ line
          · rw [if_pos hq] at hblock
            refine List.onlyLeads_of_unmarked fun u hu => ?_
            rcases mem_intercalate hu with rfl | ⟨t, ht, hmem⟩
            · rfl
            · rcases List.mem_cons.mp ht with rfl | ht
              · exact hplain u hmem
              · exact freshBlock_unmarked hblock hrest t ht u hmem
          · rw [if_neg hq] at hblock
            have hnone : outer = [] := by
              have hdrop : line.dropWhile (fun c => decide (c ≠ q)) = [] := by
                rw [List.dropWhile_eq_nil_iff]
                rintro c hc
                refine decide_eq_true ?_
                rintro rfl
                exact hq hc
              rw [hdrop, List.map_nil] at houter
              exact List.sublist_nil.mp houter
            have hlater := ih hblock hrest fun t ht => hspace t (List.mem_cons_of_mem _ ht)
            rw [hnone]
            cases texts with
            | nil => exact fun u hu => nomatch hu
            | cons t texts =>
              rw [List.intercalate_cons_cons, List.nil_append]
              exact List.OnlyLeads.append_left (fun u hu => by rw [List.mem_singleton.mp hu]; decide) hlater

end Block

/-! ## Quoted values kept -/

/-- The reading of a file from its first line. -/
def references (nfc : Normalizer) (content : JsString) : List RefLine :=
  readReference nfc.normalize (splitLines content) none

/-- The parser on the file's characters with their marks. -/
def parseMarked (nfc : Normalizer) (content : JsString) : ParseState (UInt16 × Bool) :=
  parseLines Prod.fst nfc.normalize (32, false) ((references nfc content).map RefLine.text)

theorem references_text (nfc : Normalizer) (content : JsString) :
    ((references nfc content).map RefLine.text).map (fun text => text.map Prod.fst) = splitLines content := by
  rw [List.map_map]
  exact readReference_text _ _ _

theorem parseMarked_map (nfc : Normalizer) (content : JsString) :
    parseEnvFile nfc.normalize content =
      ⟨((parseMarked nfc content).map Prod.fst).entries, ((parseMarked nfc content).map Prod.fst).skipped⟩ := by
  unfold parseMarked parseEnvFile
  rw [← parseLines_code, references_text]

/-- No text leaves a quoted value, and what is read is the reference reading's. -/
structure QuotesKept (nfc : Normalizer) (content : JsString) : Prop where
  /-- The names of entries and of skipped lines are read from outside the values. -/
  names : ∀ i ref, (references nfc content)[i]? = some ref →
    (∃ e ∈ (parseEnvFile nfc.normalize content).entries, e.line = i + 1) ∨
      (∃ x ∈ (parseEnvFile nfc.normalize content).skipped, x.line = i + 1 ∧ x.name ≠ none) →
    ∀ u ∈ nameSource Prod.fst ref.text, u.2 = false
  descriptions : ∀ e ∈ (parseMarked nfc content).entries, ∀ u ∈ e.descriptionCandidate, u.2 = false
  values : ∀ e ∈ (parseMarked nfc content).entries, e.valueFaithful = true → ∀ u ∈ e.value, u.2 = false
  faithful : ∀ e ∈ (parseEnvFile nfc.normalize content).entries, e.valueFaithful = true →
    ∃ ref ∈ references nfc content, ref.assignment = some (e.name, [e.value])
  distinct : ((parseEnvFile nfc.normalize content).entries.map EnvFileEntry.name).Nodup
  /-- Each line between values that is not blank and no comment has one record. -/
  once : ∀ i ref, (references nfc content)[i]? = some ref → ref.inside = false →
    trim Prod.fst ref.text ≠ [] → (trim Prod.fst ref.text).head?.map Prod.fst ≠ some 35 →
    (parseEnvFile nfc.normalize content).entries.countP (fun e => e.line = i + 1) +
      (parseEnvFile nfc.normalize content).skipped.countP (fun x => x.line = i + 1) = 1

/-- No line that begins inside a quoted value reads as an assignment, and none that reads as a comment right before one
has text of the value. -/
structure NothingReadInside (nfc : Normalizer) (content : JsString) : Prop where
  names : ∀ ref ∈ references nfc content, ref.inside = true → validName Prod.fst nfc.normalize ref.text = none
  comments : ∀ before block entry after name, references nfc content = before ++ (block ++ entry :: after) →
    (∀ ref ∈ block, commentOf Prod.fst nfc.normalize ref.text ≠ none) →
    validName Prod.fst nfc.normalize entry.text = some name →
    (∀ ref ∈ before, validName Prod.fst nfc.normalize ref.text ≠ some name) →
    ∀ ref ∈ block, ∀ text, commentOf Prod.fst nfc.normalize ref.text = some text →
    ∀ u ∈ text, u.2 = true → isWhitespace u.1 = true

/-! ## Lines of a reading -/

section Lines
variable {nfc : Normalizer} {content : JsString}

theorem exists_refs {before after : List (List (UInt16 × Bool))} {line : List (UInt16 × Bool)}
    (h : (references nfc content).map RefLine.text = before ++ line :: after) :
    ∃ s ref t, references nfc content = s ++ ref :: t ∧ s.map RefLine.text = before ∧ ref.text = line := by
  obtain ⟨s, rest, hrefs, hs, hrest⟩ := List.map_eq_append_iff.mp h
  obtain ⟨ref, t, rfl, href, -⟩ := List.map_eq_cons_iff.mp hrest
  exact ⟨s, ref, t, hrefs, hs, href⟩

theorem mem_marked {ref : RefLine} (h : ref ∈ references nfc content) :
    (∃ q line, isQuote q = true ∧ ref = insideLine q line) ∨ ∃ line later, ref = freshLine nfc.normalize line later :=
  mem_readReference (fun q hq => by cases hq) h

theorem entry_line {e : EnvFileEntry (UInt16 × Bool)} (h : e ∈ (parseMarked nfc content).entries) :
    ∃ s ref t name raw, references nfc content = s ++ ref :: t ∧
      readLine Prod.fst nfc.normalize ref.text = .assignment name raw ∧
      (∀ r ∈ s, validName Prod.fst nfc.normalize r.text ≠ some name) ∧
      e = entryOf Prod.fst (32, false)
        (parseLines Prod.fst nfc.normalize (32, false) (s.map RefLine.text)).comments (s.length + 1) name raw := by
  obtain ⟨before, line, after, hsplit, name, raw, hread, hseen, rfl⟩ := (mem_entries _).mp h
  obtain ⟨s, ref, t, hrefs, rfl, rfl⟩ := exists_refs hsplit
  refine ⟨s, ref, t, name, raw, hrefs, hread, fun r hr hname => ?_, by rw [List.length_map]⟩
  have hhas := (has_seen (32, false) (s.map RefLine.text) name).mpr ⟨r.text, List.mem_map_of_mem hr, hname⟩
  rw [hseen] at hhas
  cases hhas

theorem shown_of_validName {s t : List RefLine} {ref : RefLine} {name : JsString}
    (hrefs : references nfc content = s ++ ref :: t) (hname : validName Prod.fst nfc.normalize ref.text = some name) :
    (∃ e ∈ (parseEnvFile nfc.normalize content).entries, e.line = s.length + 1) ∨
      ∃ x ∈ (parseEnvFile nfc.normalize content).skipped, x.line = s.length + 1 ∧ x.name ≠ none := by
  obtain ⟨raw, hread⟩ := validName_eq_some.mp hname
  have hsplit : (references nfc content).map RefLine.text = s.map RefLine.text ++ ref.text :: t.map RefLine.text := by
    rw [hrefs, List.map_append, List.map_cons]
  rw [parseMarked_map]
  cases hseen : (parseLines Prod.fst nfc.normalize (32, false) (s.map RefLine.text)).seen.has name with
  | false =>
    refine .inl ⟨_, List.mem_map_of_mem ((mem_entries _).mpr ⟨_, _, _, hsplit, name, raw, hread, hseen, rfl⟩), ?_⟩
    rw [List.length_map]
    rfl
  | true =>
    refine .inr ⟨⟨s.length + 1, .duplicateName, some name⟩, ?_, rfl, Option.some_ne_none name⟩
    refine (mem_skipped_named (32, false) (Option.some_ne_none name)).mpr ⟨_, _, _, hsplit, name, raw, hread, hseen, ?_⟩
    rw [List.length_map]

theorem validName_of_shown {i : Nat} {ref : RefLine} (href : (references nfc content)[i]? = some ref)
    (h : (∃ e ∈ (parseEnvFile nfc.normalize content).entries, e.line = i + 1) ∨
      ∃ x ∈ (parseEnvFile nfc.normalize content).skipped, x.line = i + 1 ∧ x.name ≠ none) :
    ∃ name, validName Prod.fst nfc.normalize ref.text = some name := by
  have hat : ∀ {s t : List RefLine} {r : RefLine}, references nfc content = s ++ r :: t → s.length = i → r = ref := by
    rintro s t r hrefs rfl
    rw [hrefs, List.getElem?_append_right (le_refl _), Nat.sub_self] at href
    exact Option.some.inj href
  rw [parseMarked_map] at h
  rcases h with ⟨e, he, hline⟩ | ⟨x, hx, hline, hname⟩
  · obtain ⟨marked, hmarked, rfl⟩ := List.mem_map.mp he
    obtain ⟨s, r, t, name, raw, hrefs, hread, -, rfl⟩ := entry_line hmarked
    rw [← hat hrefs (Nat.succ.inj hline)]
    exact ⟨name, validName_eq_some.mpr ⟨raw, hread⟩⟩
  · obtain ⟨before, line, after, hsplit, name, raw, hread, -, rfl⟩ := (mem_skipped_named (32, false) hname).mp hx
    obtain ⟨s, r, t, hrefs, rfl, rfl⟩ := exists_refs hsplit
    rw [← hat hrefs (by simpa using hline)]
    exact ⟨name, validName_eq_some.mpr ⟨raw, hread⟩⟩

theorem exists_texts {block : List RefLine} (h : ∀ ref ∈ block, commentOf Prod.fst nfc.normalize ref.text ≠ none) :
    ∃ texts : List (List (UInt16 × Bool)),
      block.map (fun ref => commentOf Prod.fst nfc.normalize ref.text) = texts.map some := by
  induction block with
  | nil => exact ⟨[], rfl⟩
  | cons ref block ih =>
    obtain ⟨texts, htexts⟩ := ih fun r hr => h r (List.mem_cons_of_mem _ hr)
    obtain ⟨text, htext⟩ := Option.ne_none_iff_exists'.mp (h ref List.mem_cons_self)
    exact ⟨text :: texts, by rw [List.map_cons, List.map_cons, htext, htexts]⟩

end Lines

/-! ## When nothing leaves -/

section Kept
variable {nfc : Normalizer} {content : JsString}

theorem names_of_kept (h : QuotesKept nfc content) : ∀ ref ∈ references nfc content, ref.inside = true →
    validName Prod.fst nfc.normalize ref.text = none := by
  intro ref hmem hinside
  by_contra hne
  obtain ⟨name, hname⟩ := Option.ne_none_iff_exists'.mp hne
  rcases mem_marked hmem with ⟨q, line, hq, rfl⟩ | ⟨line, later, rfl⟩
  · obtain ⟨u, hu, hmark⟩ := nameSource_insideLine nfc hq hname
    obtain ⟨s, t, hrefs⟩ := List.append_of_mem hmem
    have hunmarked := h.names s.length _ (by rw [hrefs]; simp) (shown_of_validName hrefs hname) u hu
    rw [hmark] at hunmarked
    cases hunmarked
  · cases hinside

theorem comments_of_kept (h : QuotesKept nfc content) {before block after : List RefLine} {entry : RefLine} {name : JsString}
    (hrefs : references nfc content = before ++ (block ++ entry :: after))
    (hblock : ∀ ref ∈ block, commentOf Prod.fst nfc.normalize ref.text ≠ none)
    (hentry : validName Prod.fst nfc.normalize entry.text = some name)
    (hnew : ∀ ref ∈ before, validName Prod.fst nfc.normalize ref.text ≠ some name) {ref : RefLine} (hmem : ref ∈ block)
    {text : List (UInt16 × Bool)} (htext : commentOf Prod.fst nfc.normalize ref.text = some text) {u : UInt16 × Bool}
    (hu : u ∈ text) (hmark : u.2 = true) : isWhitespace u.1 = true := by
  by_contra hspace
  obtain ⟨raw, hread⟩ := validName_eq_some.mp hentry
  obtain ⟨texts, htexts⟩ := exists_texts hblock
  have hin : text ∈ texts := by
    have hsome : some text ∈ texts.map some := by
      rw [← htexts, ← htext]
      exact List.mem_map_of_mem (f := fun ref : RefLine => commentOf Prod.fst nfc.normalize ref.text) hmem
    obtain ⟨t, ht, heq⟩ := List.mem_map.mp hsome
    exact Option.some.inj heq ▸ ht
  have hseen : (parseLines Prod.fst nfc.normalize (32, false) ((before ++ block).map RefLine.text)).seen.has name = false := by
    rw [← Bool.not_eq_true, has_seen]
    rintro ⟨line, hline, hname⟩
    obtain ⟨r, hr, rfl⟩ := List.mem_map.mp hline
    rcases List.mem_append.mp hr with hr | hr
    · exact hnew r hr hname
    · obtain ⟨t, ht⟩ := Option.ne_none_iff_exists'.mp (hblock r hr)
      rw [validName_of_comment ht] at hname
      cases hname
  have hsplit : (references nfc content).map RefLine.text =
      (before ++ block).map RefLine.text ++ entry.text :: after.map RefLine.text := by
    rw [hrefs, ← List.append_assoc, List.map_append, List.map_cons]
  have hsuffix := comments_suffix (32, false) (before.map RefLine.text) (block.map RefLine.text)
    (by rw [List.map_map]; exact htexts)
  rw [← List.map_append] at hsuffix
  have hunmarked := h.descriptions _ ((mem_entries _).mpr ⟨_, _, _, hsplit, name, raw, hread, hseen, rfl⟩) u
    (List.mem_trimBy_of_not (mem_intercalate_of_mem (hsuffix.subset hin) hu) (Bool.not_eq_true _ ▸ hspace))
  rw [hmark] at hunmarked
  cases hunmarked

variable (h : NothingReadInside nfc content)
include h

theorem fresh_of_validName {ref : RefLine} (hmem : ref ∈ references nfc content) {name : JsString}
    (hname : validName Prod.fst nfc.normalize ref.text = some name) :
    ∃ line later, ref = freshLine nfc.normalize line later := by
  rcases mem_marked hmem with ⟨q, line, hq, rfl⟩ | hfresh
  · rw [h.names _ hmem rfl] at hname
    cases hname
  · exact hfresh

theorem description_unmarked {e : EnvFileEntry (UInt16 × Bool)} (he : e ∈ (parseMarked nfc content).entries) :
    ∀ u ∈ e.descriptionCandidate, u.2 = false := by
  obtain ⟨s, ref, t, name, raw, hrefs, hread, hnew, rfl⟩ := entry_line he
  obtain ⟨before, block, hsplit, hblock⟩ :=
    @comments_block _ Prod.fst nfc.normalize ((32 : UInt16), false) (s.map RefLine.text)
  obtain ⟨before, block, rfl, rfl, rfl⟩ := List.map_eq_append_iff.mp hsplit
  rw [List.map_map] at hblock
  rw [List.append_assoc] at hrefs
  obtain ⟨lines', mode', hrest⟩ := readReference_rest hrefs
  have hcomment : ∀ r ∈ block, commentOf Prod.fst nfc.normalize r.text ≠ none := by
    intro r hr hnone
    have hin := List.mem_map_of_mem (f := commentOf Prod.fst nfc.normalize ∘ RefLine.text) hr
    rw [hblock, Function.comp_apply, hnone] at hin
    obtain ⟨text, -, htext⟩ := List.mem_map.mp hin
    cases htext
  refine (block_onlyLeads hrest.symm hblock fun text ht u hu hmark => ?_).trimBy
  have hin : some text ∈ block.map (commentOf Prod.fst nfc.normalize ∘ RefLine.text) := by
    rw [hblock]
    exact List.mem_map_of_mem ht
  obtain ⟨r, hr, htext⟩ := List.mem_map.mp hin
  exact h.comments before block ref t name hrefs hcomment (validName_eq_some.mpr ⟨raw, hread⟩)
    (fun r hr => hnew r (List.mem_append_left _ hr)) r hr text htext u hu hmark

theorem value_unmarked {e : EnvFileEntry (UInt16 × Bool)} (he : e ∈ (parseMarked nfc content).entries)
    (hfaithful : e.valueFaithful = true) : (∀ u ∈ e.value, u.2 = false) ∧
      ∃ ref ∈ references nfc content, ref.assignment = some (e.name, [e.value.map Prod.fst]) := by
  obtain ⟨s, ref, t, name, raw, hrefs, hread, -, rfl⟩ := entry_line he
  have hmem : ref ∈ references nfc content := by
    rw [hrefs]
    exact List.mem_append_right _ List.mem_cons_self
  obtain ⟨line, later, rfl⟩ := fresh_of_validName h hmem (validName_eq_some.mpr ⟨raw, hread⟩)
  obtain ⟨hunmarked, hassignment⟩ := faithful_freshLine hread hfaithful
  exact ⟨hunmarked, _, hmem, hassignment⟩

end Kept

theorem once_recorded (nfc : Normalizer) (content : JsString) {i : Nat} {ref : RefLine}
    (href : (references nfc content)[i]? = some ref) (hfilled : trim Prod.fst ref.text ≠ [])
    (hcomment : (trim Prod.fst ref.text).head?.map Prod.fst ≠ some 35) :
    (parseEnvFile nfc.normalize content).entries.countP (fun e => e.line = i + 1) +
      (parseEnvFile nfc.normalize content).skipped.countP (fun x => x.line = i + 1) = 1 := by
  have hline : (splitLines content)[i]? = some (ref.text.map Prod.fst) := by
    rw [← references_text nfc content, List.getElem?_map, List.getElem?_map, href]
    rfl
  have hrecords := @recordsAt_line _ id nfc.normalize 32 _ _ _ hline
  have hrecorded := @recorded_of_filled _ Prod.fst nfc.normalize _ hfilled hcomment
  rw [if_pos] at hrecords
  · exact hrecords
  · rw [readLine_code]
    cases hread : readLine Prod.fst nfc.normalize ref.text <;> rw [hread] at hrecorded <;>
      first | rfl | cases hrecorded

/-- **No text leaves a quoted value exactly when no line inside one reads as an assignment or as a comment of one.** -/
theorem quotesKept_iff (nfc : Normalizer) (content : JsString) :
    QuotesKept nfc content ↔ NothingReadInside nfc content := by
  constructor
  · intro h
    exact ⟨names_of_kept h, fun before block entry after name hrefs hblock hentry hnew ref hmem text htext u hu hmark =>
      comments_of_kept h hrefs hblock hentry hnew hmem htext hu hmark⟩
  · intro h
    refine ⟨fun i ref href hshown u hu => ?_, fun e he => description_unmarked h he,
      fun e he hfaithful => (value_unmarked h he hfaithful).1, fun e he hfaithful => ?_, (entries_nodup _ _).1,
      fun i ref href _ hfilled hcomment => once_recorded nfc content href hfilled hcomment⟩
    · obtain ⟨name, hname⟩ := validName_of_shown href hshown
      obtain ⟨line, later, rfl⟩ := fresh_of_validName h (List.mem_of_getElem? href) hname
      exact nameSource_freshLine hname u hu
    · rw [parseMarked_map] at he
      obtain ⟨marked, hmarked, rfl⟩ := List.mem_map.mp he
      exact (value_unmarked h hmarked hfaithful).2

/-- On text of one byte a character normalization changes nothing. -/
def unchanged : Normalizer := ⟨id, rfl, fun _ _ h _ => h⟩

/-- The second line of a value becomes a variable of its own. -/
theorem quotesKept_fails : ¬ ∀ (nfc : Normalizer) (content : JsString), QuotesKept nfc content := by
  intro h
  have hkept := h unchanged (lit "KEY=\"abc\nSECRET=xyz\"\n")
  have hunmarked := hkept.names 1 (insideLine 34 (lit "SECRET=xyz\"")) (by decide +kernel)
    (.inl ⟨⟨lit "SECRET", 2, lit "xyz\"", true, []⟩, by decide +kernel, rfl⟩) (83, true) (by decide +kernel)
  cases hunmarked

end Maruhi.EnvFile
