import Maruhi.Bytes.Replace
import Mathlib.Data.List.Find
import Mathlib.Data.List.Induction

/-!
# A stream is replaced as the whole

The scan is the scanner that selects the longest pattern, and waits where a longer one could still be
completed. So the chunks of an input, however it is cut, are replaced as the input is.
-/

namespace Maruhi.Bytes

/-! ## The tests, on what is left of the input -/

theorem matchesAt_iff {haystack needle : Uint8Array} {pos : Nat} (hn : 0 < needle.length) :
    matchesAt haystack needle pos = true ↔ needle <+: haystack.drop pos := by
  unfold matchesAt
  split_ifs with hlong
  · constructor
    · intro h
      cases h
    · intro h
      have hle := h.length_le
      rw [List.length_drop] at hle
      omega
  · simp only [List.all_eq_true, List.mem_range, decide_eq_true_eq]
    rw [List.prefix_iff_getElem?]
    constructor
    · intro h j hj
      rw [List.getElem?_drop, h j hj, List.getElem?_eq_getElem hj]
    · intro h j hj
      rw [← List.getElem?_drop, h j hj, List.getElem?_eq_getElem hj]

theorem couldExtendAt_iff {input : Uint8Array} {sorted : List ScanPattern} {pos minLength : Nat} :
    couldExtendAt input sorted pos minLength = true ↔ ∃ pattern ∈ sorted,
      (input.drop pos).length < pattern.source.length ∧ minLength < pattern.source.length ∧
        input.drop pos <+: pattern.source := by
  unfold couldExtendAt
  simp only [List.any_eq_true, Bool.and_eq_true, Bool.not_eq_true', Bool.or_eq_false_iff, decide_eq_false_iff_not,
    not_le, List.all_eq_true, List.mem_range, decide_eq_true_eq, ← List.length_drop, ← List.getElem?_drop, and_assoc]
  refine exists_congr fun pattern => and_congr_right fun _ => and_congr_right fun _ => and_congr_right fun _ => ?_
  rw [List.prefix_iff_getElem?]
  constructor
  · intro h j hj
    rw [h j hj, List.getElem?_eq_getElem hj]
  · intro h j hj
    rw [h j hj, List.getElem?_eq_getElem hj]

theorem longestMatchAt_drop (haystack : Uint8Array) (sorted : List ScanPattern) (pos : Nat) :
    longestMatchAt (haystack.drop pos) sorted 0 = longestMatchAt haystack sorted pos := by
  unfold longestMatchAt
  congr 1
  funext pattern
  rw [Bool.eq_iff_iff, matchesAt_iff pattern.nonempty, matchesAt_iff pattern.nonempty, List.drop_zero]

theorem couldExtendAt_drop (input : Uint8Array) (sorted : List ScanPattern) (pos minLength : Nat) :
    couldExtendAt (input.drop pos) sorted 0 minLength = couldExtendAt input sorted pos minLength := by
  rw [Bool.eq_iff_iff, couldExtendAt_iff, couldExtendAt_iff, List.drop_zero]

/-! ## The scanner -/

section Scanner
variable (sorted : List ScanPattern)

/-- The longest pattern at the front, as a selection. -/
def select (input : Uint8Array) : Option (Nat × Uint8Array) :=
  (longestMatchAt input sorted 0).map fun found => (found.source.length - 1, found.target)

/-- A longer pattern than the one at the front could still be completed. -/
def waits (input : Uint8Array) : Bool :=
  input.length < longestLength sorted && couldExtendAt input sorted 0 (matchLength (longestMatchAt input sorted 0))

variable {sorted}

theorem longestMatchAt_some {input : Uint8Array} {found : ScanPattern}
    (h : longestMatchAt input sorted 0 = some found) : found ∈ sorted ∧ found.source <+: input := by
  unfold longestMatchAt at h
  have hmatch := List.find?_some h
  rw [matchesAt_iff found.nonempty, List.drop_zero] at hmatch
  exact ⟨List.mem_of_find?_eq_some h, hmatch⟩

theorem matchLength_le (input : Uint8Array) : matchLength (longestMatchAt input sorted 0) ≤ input.length := by
  cases h : longestMatchAt input sorted 0 with
  | none => exact Nat.zero_le _
  | some found => exact (longestMatchAt_some h).2.length_le

theorem le_longestLength (h : sorted.Pairwise fun a b => b.source.length ≤ a.source.length) {pattern : ScanPattern}
    (hp : pattern ∈ sorted) : pattern.source.length ≤ longestLength sorted := by
  cases sorted with
  | nil => simp at hp
  | cons first rest =>
    rcases List.mem_cons.mp hp with rfl | hp
    · exact le_refl _
    · exact (List.pairwise_cons.mp h).1 pattern hp

theorem length_lt_of_waits {input : Uint8Array} (h : waits sorted input = true) :
    input.length < longestLength sorted := by
  unfold waits at h
  exact of_decide_eq_true (Bool.and_eq_true_iff.mp h).1

theorem settles (h : sorted.Pairwise fun a b => b.source.length ≤ a.source.length) :
    Scanner.Settles (select sorted) (waits sorted) := by
  constructor
  · intro input after _ hwaits
    unfold select
    congr 1
    unfold longestMatchAt
    -- a pattern that begins in the input and ends after it is longer than the match, and would make it wait
    apply List.find?_congr
    intro pattern hp
    rw [Bool.eq_iff_iff, matchesAt_iff pattern.nonempty, matchesAt_iff pattern.nonempty, List.drop_zero, List.drop_zero]
    refine ⟨fun hprefix => ?_, fun hprefix => hprefix.trans (List.prefix_append _ _)⟩
    by_cases hle : pattern.source.length ≤ input.length
    · exact List.prefix_of_prefix_length_le hprefix (List.prefix_append _ _) hle
    · exfalso
      rw [not_le] at hle
      have hlongest := le_longestLength h hp
      have hextends : couldExtendAt input sorted 0 (matchLength (longestMatchAt input sorted 0)) = true := by
        apply couldExtendAt_iff.mpr
        refine ⟨pattern, hp, by simpa using hle, lt_of_le_of_lt (matchLength_le input) hle, ?_⟩
        rw [List.drop_zero]
        exact List.prefix_of_prefix_length_le (List.prefix_append _ _) hprefix hle.le
      unfold waits at hwaits
      rw [hextends, Bool.and_true, decide_eq_false_iff_not] at hwaits
      omega
  · intro input n output hs
    unfold select at hs
    obtain ⟨found, hfound, heq⟩ := Option.map_eq_some_iff.mp hs
    cases heq
    have hle := (longestMatchAt_some hfound).2.length_le
    have := found.nonempty
    omega

theorem subarray_succ {input : Uint8Array} {start i : Nat} (hstart : start ≤ i) (hi : i < input.length) :
    subarray input start (i + 1) = subarray input start i ++ [input[i]] := by
  unfold subarray
  rw [Nat.succ_sub hstart, List.take_add_one, List.getElem?_drop, Nat.add_sub_cancel' hstart,
    List.getElem?_eq_getElem hi]
  rfl

theorem scanLoop_eq (input : Uint8Array) (final : Bool) (i literalStart : Nat) (parts : List Uint8Array)
    (hi : i ≤ input.length) (hstart : literalStart ≤ i) :
    (scanLoop input sorted final i literalStart parts).1 = parts.flatten ++ subarray input literalStart i ++
        (Scanner.segmentsUntil (select sorted) (fun rest => !final && waits sorted rest) (input.drop i)).1.flatMap
          Segment.output ∧
      input.drop (scanLoop input sorted final i literalStart parts).2 =
        (Scanner.segmentsUntil (select sorted) (fun rest => !final && waits sorted rest) (input.drop i)).2 := by
  have hwaits : ∀ i, (!final && input.length - i < longestLength sorted &&
      couldExtendAt input sorted i (matchLength (longestMatchAt input sorted i))) =
        (!final && waits sorted (input.drop i)) := by
    intro i
    unfold waits
    rw [couldExtendAt_drop, longestMatchAt_drop, List.length_drop, Bool.and_assoc]
  fun_induction scanLoop input sorted final i literalStart parts with
  | case1 i literalStart parts hlt hstop =>
    rw [hwaits] at hstop
    have hne : input.drop i ≠ [] := by
      rw [ne_eq, List.drop_eq_nil_iff]
      omega
    rw [Scanner.segmentsUntil_waits hne hstop]
    simp
  | case2 i literalStart parts hlt hstop hnone ih =>
    rw [hwaits] at hstop
    obtain ⟨hout, hrest⟩ := ih (by omega) (by omega)
    have hselect : select sorted (input.drop i) = none := by
      unfold select
      rw [longestMatchAt_drop, hnone]
      rfl
    rw [List.drop_eq_getElem_cons hlt] at hselect hstop ⊢
    rw [Scanner.segmentsUntil_literal (by simpa using hstop) hselect, hout, hrest]
    refine ⟨?_, rfl⟩
    rw [List.flatMap_cons, subarray_succ (by assumption) hlt]
    simp [Segment.output]
  | case3 i literalStart parts hlt hstop found hfound ih =>
    rw [hwaits] at hstop
    have hpos := found.nonempty
    have hle : i + found.source.length ≤ input.length := by
      rw [← longestMatchAt_drop] at hfound
      have hprefix := (longestMatchAt_some hfound).2.length_le
      rw [List.length_drop] at hprefix
      omega
    obtain ⟨hout, hrest⟩ := ih hle (le_refl _)
    have hselect : select sorted (input.drop i) = some (found.source.length - 1, found.target) := by
      unfold select
      rw [longestMatchAt_drop, hfound]
      rfl
    have hdrop : (input.drop (i + 1)).drop (found.source.length - 1) = input.drop (i + found.source.length) := by
      rw [List.drop_drop]
      congr 1
      omega
    rw [List.drop_eq_getElem_cons hlt] at hselect hstop ⊢
    rw [Scanner.segmentsUntil_replaced (by simpa using hstop) hselect, hdrop, hout, hrest]
    refine ⟨?_, rfl⟩
    simp [Segment.output, subarray]
  | case4 i literalStart parts hge =>
    rw [List.drop_eq_nil_of_le (by omega), Scanner.segmentsUntil_nil]
    simp

theorem subarray_self (input : Uint8Array) (i : Nat) : subarray input i i = [] := by simp [subarray]

theorem scan_final (input : Uint8Array) :
    (scan input sorted true).1 = (Scanner.segments (select sorted) input).flatMap Segment.output := by
  have h := (@scanLoop_eq sorted input true 0 0 [] (Nat.zero_le _) (le_refl _)).1
  simpa [subarray_self, scan, Scanner.segments] using h

theorem scan_push (input : Uint8Array) :
    (scan input sorted false).1 = (Scanner.segmentsUntil (select sorted) (waits sorted) input).1.flatMap Segment.output ∧
      input.drop (scan input sorted false).2 = (Scanner.segmentsUntil (select sorted) (waits sorted) input).2 := by
  have h := @scanLoop_eq sorted input false 0 0 [] (Nat.zero_le _) (le_refl _)
  simpa [subarray_self, scan] using h

/-! ## The replacer -/

theorem combined_eq (replacer : StreamReplacer) (chunk : Uint8Array) :
    replacer.combined chunk = replacer.pending ++ chunk := by
  unfold StreamReplacer.combined
  split_ifs with h
  · rw [List.length_eq_zero_iff.mp h, List.nil_append]
  · rfl

theorem push_eq (hne : sorted.length ≠ 0) (pending chunk : Uint8Array) :
    (⟨sorted, pending⟩ : StreamReplacer).push chunk =
      ((Scanner.segmentsUntil (select sorted) (waits sorted) (pending ++ chunk)).1.flatMap Segment.output,
        ⟨sorted, (Scanner.segmentsUntil (select sorted) (waits sorted) (pending ++ chunk)).2⟩) := by
  obtain ⟨hout, hrest⟩ := @scan_push sorted (pending ++ chunk)
  unfold StreamReplacer.push
  rw [if_neg hne]
  dsimp only
  rw [combined_eq, hout, hrest]

theorem pushAll_eq (hne : sorted.length ≠ 0) (chunks : List Uint8Array) :
    (⟨sorted, []⟩ : StreamReplacer).pushAll chunks =
      ((chunks.foldl (Scanner.feed (select sorted) (waits sorted)) ([], [])).1.flatMap Segment.output,
        ⟨sorted, (chunks.foldl (Scanner.feed (select sorted) (waits sorted)) ([], [])).2⟩) := by
  unfold StreamReplacer.pushAll
  induction chunks using List.reverseRecOn with
  | nil => rfl
  | append_singleton chunks chunk ih =>
    rw [List.foldl_append, List.foldl_append, ih, List.foldl_cons, List.foldl_nil, List.foldl_cons, List.foldl_nil]
    dsimp only
    rw [push_eq hne]
    simp [Scanner.feed]

theorem pushAll_empty (hempty : sorted.length = 0) (chunks : List Uint8Array) :
    (⟨sorted, []⟩ : StreamReplacer).pushAll chunks = (chunks.flatten, ⟨sorted, []⟩) := by
  obtain rfl := List.length_eq_zero_iff.mp hempty
  unfold StreamReplacer.pushAll
  induction chunks using List.reverseRecOn with
  | nil => rfl
  | append_singleton chunks chunk ih =>
    rw [List.foldl_append, ih]
    simp [StreamReplacer.push]

end Scanner

theorem sortedPatterns_longestFirst (patterns : List BytePattern) :
    (sortedPatterns patterns).Pairwise fun a b => b.source.length ≤ a.source.length := by
  have h := @List.pairwise_mergeSort _ (fun a b : ScanPattern => b.source.length ≤ a.source.length)
    (fun a b c hab hbc => by simp at *; omega) (fun a b => by simp; omega) (patterns.filterMap nonempty?)
  simpa [sortedPatterns] using h

theorem mem_sortedPatterns {patterns : List BytePattern} {pattern : ScanPattern} :
    pattern ∈ sortedPatterns patterns ↔ pattern.toBytePattern ∈ patterns := by
  unfold sortedPatterns
  rw [List.mem_mergeSort, List.mem_filterMap]
  constructor
  · rintro ⟨p, hp, heq⟩
    unfold nonempty? at heq
    split_ifs at heq
    cases heq
    exact hp
  · intro hp
    refine ⟨_, hp, ?_⟩
    unfold nonempty?
    rw [dif_pos pattern.nonempty]

/-- The longest length of a pattern, or 0. -/
def longestSource (patterns : List BytePattern) : Nat := (patterns.map (·.source.length)).foldr max 0

theorem le_longestSource {patterns : List BytePattern} {pattern : BytePattern} (h : pattern ∈ patterns) :
    pattern.source.length ≤ longestSource patterns := by
  unfold longestSource
  induction patterns with
  | nil => simp at h
  | cons first rest ih =>
    rw [List.map_cons, List.foldr_cons]
    rcases List.mem_cons.mp h with rfl | h
    · exact le_max_left _ _
    · exact (ih h).trans (le_max_right _ _)

theorem longestLength_le (patterns : List BytePattern) :
    longestLength (sortedPatterns patterns) ≤ longestSource patterns := by
  unfold longestLength
  cases hsorted : sortedPatterns patterns with
  | nil => exact Nat.zero_le _
  | cons first rest =>
    apply le_longestSource
    apply (mem_sortedPatterns).mp
    rw [hsorted]
    exact List.mem_cons_self

/-- What the scan of a whole input passes and replaces. -/
def scanned (patterns : List BytePattern) (input : Uint8Array) : List (Segment UInt8) :=
  Scanner.segments (select (sortedPatterns patterns)) input

/-- One of the segments replaces the byte at `position`. -/
def Replaces (segments : List (Segment UInt8)) (position : Nat) : Prop :=
  ∃ before segment after, segments = before ++ segment :: after ∧ segment.isReplaced = true ∧
    (before.flatMap Segment.source).length ≤ position ∧
      position < (before.flatMap Segment.source).length + segment.source.length

theorem scanned_output (patterns : List BytePattern) (input : Uint8Array) :
    (scanned patterns input).flatMap Segment.output = replaceBytes input patterns := by
  unfold replaceBytes scanned
  split_ifs with h
  · have hnone : ∀ input, select (sortedPatterns patterns) input = none := by
      intro input
      rw [List.length_eq_zero_iff.mp h]
      rfl
    rw [Scanner.segments_none hnone]
    induction input with
    | nil => rfl
    | cons a rest ih => rw [List.map_cons, List.flatMap_cons, ih, Segment.output, List.singleton_append]
  · rw [scan_final]

theorem scanned_replaced {patterns : List BytePattern} {input : Uint8Array} {segment : Segment UInt8}
    (hmem : segment ∈ scanned patterns input) (hreplaced : segment.isReplaced = true) :
    ∃ pattern ∈ patterns, segment = .replaced pattern.source pattern.target := by
  obtain ⟨rest, n, output, hs, rfl⟩ := Scanner.segments_selected input hmem hreplaced
  unfold select at hs
  obtain ⟨found, hfound, heq⟩ := Option.map_eq_some_iff.mp hs
  cases heq
  obtain ⟨hsorted, hprefix⟩ := longestMatchAt_some hfound
  refine ⟨found.toBytePattern, (mem_sortedPatterns).mp hsorted, ?_⟩
  rw [Nat.sub_add_cancel found.nonempty, ← List.prefix_iff_eq_take.mp hprefix]

/-- An occurrence of a pattern is replaced from its first byte on, or by a match that began before. -/
theorem scanned_covers {patterns : List BytePattern} {input : Uint8Array} {pattern : BytePattern}
    (hp : pattern ∈ patterns) (hne : pattern.source ≠ []) {position : Nat}
    (hoccurs : pattern.source <+: input.drop position) : Replaces (scanned patterns input) position := by
  have hpos : 0 < pattern.source.length := List.length_pos_of_ne_nil hne
  apply Scanner.segments_cover
  · unfold select
    rw [ne_eq, Option.map_eq_none_iff]
    unfold longestMatchAt
    rw [List.find?_eq_none]
    intro hnone
    refine hnone ⟨pattern, hpos⟩ ((mem_sortedPatterns).mpr hp) ?_
    rw [matchesAt_iff hpos, List.drop_zero]
    exact hoccurs
  · have hle := hoccurs.length_le
    rw [List.length_drop] at hle
    omega

theorem stream_replacement (patterns : List BytePattern) (chunks : List Uint8Array) :
    (makeStreamReplacer patterns).stream chunks = replaceBytes chunks.flatten patterns ∧
      ((makeStreamReplacer patterns).pushAll chunks).2.pending.length ≤ longestSource patterns - 1 ∧
      (scanned patterns chunks.flatten).flatMap Segment.source = chunks.flatten ∧
      (scanned patterns chunks.flatten).flatMap Segment.output = replaceBytes chunks.flatten patterns ∧
      (∀ segment ∈ scanned patterns chunks.flatten, segment.isReplaced = true →
        ∃ pattern ∈ patterns, segment = .replaced pattern.source pattern.target) ∧
      ∀ pattern ∈ patterns, pattern.source ≠ [] → ∀ position, pattern.source <+: chunks.flatten.drop position →
        Replaces (scanned patterns chunks.flatten) position := by
  refine ⟨?_, ?_, Scanner.segments_source _, scanned_output _ _, fun _ => scanned_replaced,
    fun _ hp hne _ => scanned_covers hp hne⟩
  · unfold StreamReplacer.stream makeStreamReplacer
    by_cases hne : (sortedPatterns patterns).length = 0
    · rw [pushAll_empty hne]
      simp [StreamReplacer.flush, replaceBytes, hne]
    · rw [pushAll_eq hne, ← scanned_output]
      unfold StreamReplacer.flush
      dsimp only
      rw [if_neg hne, scan_final, ← List.flatMap_append,
        Scanner.segments_feed (settles (sortedPatterns_longestFirst patterns))]
      rfl
  · unfold makeStreamReplacer
    by_cases hne : (sortedPatterns patterns).length = 0
    · rw [pushAll_empty hne]
      exact Nat.zero_le _
    · rw [pushAll_eq hne]
      dsimp only
      rcases @Scanner.feed_held _ (select (sortedPatterns patterns)) _ chunks [] [] (Or.inl rfl) with hheld | hheld
      · rw [hheld]
        exact Nat.zero_le _
      · have hlt := length_lt_of_waits hheld
        have hle := longestLength_le patterns
        omega

end Maruhi.Bytes
