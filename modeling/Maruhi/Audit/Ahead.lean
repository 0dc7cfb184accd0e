import Maruhi.Audit.Verify

/-!
# How the rows are sorted out

Every row goes to one place: to its entry, to the rows ahead of the head, or into a problem. The rows ahead pass exactly
when their seqs follow the head without a gap, each with one row or two.
-/

open Text

namespace Maruhi.Audit

/-! ## Rows ahead of the head -/

def countsOf (ahead : List Nat) : OrderedMap Nat Nat :=
  ahead.foldl (fun counts chainSeq => counts.set chainSeq ((counts.get? chainSeq).getD 0 + 1)) .empty

theorem countsOf_get? (ahead : List Nat) (seq : Nat) :
    (countsOf ahead).get? seq = if ahead.count seq = 0 then none else some (ahead.count seq) := by
  induction ahead using List.reverseRecOn with
  | nil => rfl
  | append_singleton rest last ih =>
    have hsnoc : countsOf (rest ++ [last]) = (countsOf rest).set last (((countsOf rest).get? last).getD 0 + 1) := by
      unfold countsOf
      rw [List.foldl_append]
      rfl
    rw [hsnoc, OrderedMap.get?_set, List.count_append]
    by_cases hseq : seq = last
    · subst hseq
      rw [if_pos rfl, ih]
      by_cases hzero : rest.count seq = 0
      · simp [hzero]
      · simp [hzero]
    · rw [if_neg hseq, ih, List.count_singleton]
      simp [Ne.symm hseq]

theorem countsOf_getD (ahead : List Nat) (seq : Nat) : ((countsOf ahead).get? seq).getD 0 = ahead.count seq := by
  rw [countsOf_get?]
  split_ifs with h
  · exact h.symm
  · rfl

theorem mem_countsOf_keys (ahead : List Nat) (seq : Nat) : seq ∈ (countsOf ahead).keys ↔ 1 ≤ ahead.count seq := by
  rw [OrderedMap.mem_keys, countsOf_get?]
  split_ifs with h
  · simp [h]
  · simp only [Option.some.injEq, exists_eq', true_iff]
    omega

theorem contiguityFrom_eq_nil (counts : OrderedMap Nat Nat) (expected : Nat) (sorted : List Nat) :
    contiguityFrom counts expected sorted = [] ↔
      sorted = List.range' expected sorted.length ∧ ∀ seq ∈ sorted, (counts.get? seq).getD 0 ≤ 2 := by
  induction sorted generalizing expected with
  | nil => simp [contiguityFrom]
  | cons seq rest ih =>
    unfold contiguityFrom
    rw [List.append_eq_nil_iff, List.append_eq_nil_iff, ih, List.forall_mem_cons, List.length_cons, List.range'_succ,
      List.cons.injEq]
    constructor
    · rintro ⟨⟨hseq, hcount⟩, hrest, hcounts⟩
      have hseq : seq = expected := by
        by_contra hne
        rw [if_pos hne] at hseq
        cases hseq
      have hcount : (counts.get? seq).getD 0 ≤ 2 := by
        by_contra hlt
        rw [if_pos (by omega)] at hcount
        cases hcount
      subst hseq
      exact ⟨⟨rfl, hrest⟩, hcount, hcounts⟩
    · rintro ⟨⟨rfl, hrest⟩, hcount, hcounts⟩
      refine ⟨⟨if_neg (not_not_intro rfl), if_neg (by omega)⟩, hrest, hcounts⟩

/-- From the head on, each seq up to the last has one row or two, and none after it has any. -/
def Contiguous (headSeq : Nat) (count : Nat → Nat) : Prop :=
  ∃ last, headSeq ≤ last ∧ ∀ seq, (headSeq < seq ∧ seq ≤ last → 1 ≤ count seq ∧ count seq ≤ 2) ∧
    (¬ (headSeq < seq ∧ seq ≤ last) → count seq = 0)

theorem aheadContiguityProblems_eq_nil (ahead : List Nat) (headSeq : Nat) :
    aheadContiguityProblems ahead headSeq = [] ↔ Contiguous headSeq fun seq => ahead.count seq := by
  change contiguityFrom (countsOf ahead) (headSeq + 1) ((countsOf ahead).keys.insertionSort (· ≤ ·)) = [] ↔ _
  have hperm := List.perm_insertionSort (· ≤ ·) (countsOf ahead).keys
  have hmem : ∀ seq, seq ∈ (countsOf ahead).keys.insertionSort (· ≤ ·) ↔ 1 ≤ ahead.count seq := fun seq =>
    hperm.mem_iff.trans (mem_countsOf_keys ahead seq)
  rw [contiguityFrom_eq_nil]
  constructor
  · rintro ⟨hrange, hcounts⟩
    refine ⟨headSeq + ((countsOf ahead).keys.insertionSort (· ≤ ·)).length, Nat.le_add_right _ _, fun seq => ?_⟩
    have hseq := hmem seq
    rw [hrange, List.mem_range'_1] at hseq
    constructor
    · intro hin
      have hone := hseq.mp (by omega)
      have htwo := hcounts seq ((hmem seq).mpr hone)
      rw [countsOf_getD] at htwo
      exact ⟨hone, htwo⟩
    · intro hout
      change ahead.count seq = 0
      by_contra hne
      have := hseq.mpr (by omega)
      omega
  · rintro ⟨last, hlast, hcount⟩
    have hin : ∀ seq, seq ∈ (countsOf ahead).keys.insertionSort (· ≤ ·) ↔ headSeq < seq ∧ seq ≤ last := by
      intro seq
      rw [hmem]
      by_cases h : headSeq < seq ∧ seq ≤ last
      · exact ⟨fun _ => h, fun _ => ((hcount seq).1 h).1⟩
      · have hzero : ahead.count seq = 0 := (hcount seq).2 h
        exact ⟨fun hone => by omega, fun h' => absurd h' h⟩
    have hrange : (countsOf ahead).keys.insertionSort (· ≤ ·) = List.range' (headSeq + 1) (last - headSeq) := by
      have hsame : ((countsOf ahead).keys.insertionSort (· ≤ ·)).Perm (List.range' (headSeq + 1) (last - headSeq)) := by
        rw [List.perm_ext_iff_of_nodup (hperm.nodup_iff.mpr (countsOf ahead).keys_nodup) List.nodup_range']
        intro seq
        rw [hin, List.mem_range'_1]
        omega
      refine List.Perm.eq_of_pairwise (fun a b _ _ hab hba => Nat.le_antisymm hab hba)
        (List.pairwise_insertionSort (· ≤ ·) _) ?_ hsame
      exact (List.pairwise_lt_range' ..).imp Nat.le_of_lt
    refine ⟨?_, fun seq hseq => ?_⟩
    · rw [hrange, List.length_range']
    · rw [countsOf_getD]
      exact ((hcount seq).1 ((hin seq).mp hseq)).2

/-! ## The buckets -/

/-- The row's event is one that the mirror writes. -/
def mirrored (row : WireMirrorRow) : Bool := chainMirrorEventTexts.contains row.event

def seqOf (row : WireMirrorRow) : Option Nat := row.chainSeq.map Subtype.val

set_option maxRecDepth 100000 in
theorem mirrored_namespace {row : WireMirrorRow} (h : mirrored row = true) : chainNamespace.isPrefixOf row.event = true := by
  have hall : (chainMirrorEventTexts.all fun event => chainNamespace.isPrefixOf event) = true := by decide +kernel
  exact List.all_eq_true.mp hall row.event (List.contains_iff_mem.mp h)

/-- Where one row goes. -/
inductive Bucketed (headSeq : Nat) (buckets : MirrorBuckets) (row : WireMirrorRow) : MirrorBuckets → Prop
  | refused (problem : MirrorProblem) (h : mirrored row = false ∨ seqOf row = none) :
      Bucketed headSeq buckets row { buckets with problems := buckets.problems ++ [problem] }
  | ahead (seq : Nat) (h : mirrored row = true) (hseq : seqOf row = some seq) (hahead : headSeq < seq) :
      Bucketed headSeq buckets row { buckets with ahead := buckets.ahead ++ [seq] }
  | matched (seq : Nat) (h : mirrored row = true) (hseq : seqOf row = some seq) (hhead : seq ≤ headSeq) :
      Bucketed headSeq buckets row
        { buckets with byChainSeq := buckets.byChainSeq.set seq ((buckets.byChainSeq.get? seq).getD [] ++ [row]) }

theorem bucketRow_bucketed (headSeq : Nat) (buckets : MirrorBuckets) (row : WireMirrorRow) :
    Bucketed headSeq buckets row (bucketRow headSeq buckets row) := by
  unfold bucketRow
  split_ifs with hnamespace hevent
  · refine .refused _ (Or.inl ?_)
    by_contra h
    rw [Bool.not_eq_false] at h
    rw [mirrored_namespace h] at hnamespace
    cases hnamespace
  · exact .refused _ (Or.inl (by simpa [mirrored] using hevent))
  · have hmirrored : mirrored row = true := by simpa [mirrored] using hevent
    cases hseq : row.chainSeq with
    | none => exact .refused _ (Or.inr (by rw [seqOf, hseq]; rfl))
    | some seq =>
      have hvalue : seqOf row = some seq.val := by rw [seqOf, hseq]; rfl
      dsimp only
      split_ifs with hahead
      · exact .ahead seq.val hmirrored hvalue hahead
      · exact .matched seq.val hmirrored hvalue (by omega)

theorem buckets_spec (headSeq : Nat) (rows : List WireMirrorRow) (buckets : MirrorBuckets)
    (h : buckets = rows.foldl (bucketRow headSeq) ⟨.empty, [], []⟩) :
    (buckets.problems = [] ↔ ∀ row ∈ rows, mirrored row = true ∧ seqOf row ≠ none) ∧
    (∀ seq, buckets.ahead.count seq =
      if headSeq < seq then rows.countP (fun row => mirrored row && decide (seqOf row = some seq)) else 0) ∧
    ∀ seq, (buckets.byChainSeq.get? seq).getD [] =
      if headSeq < seq then [] else rows.filter (fun row => mirrored row && decide (seqOf row = some seq)) := by
  induction rows using List.reverseRecOn generalizing buckets with
  | nil => subst h; simp
  | append_singleton rest row ih =>
    obtain ⟨hproblems, hahead, hmatched⟩ := ih _ rfl
    rw [List.foldl_append] at h
    have hstep := bucketRow_bucketed headSeq (rest.foldl (bucketRow headSeq) ⟨.empty, [], []⟩) row
    rw [show buckets = bucketRow headSeq (rest.foldl (bucketRow headSeq) ⟨.empty, [], []⟩) row from h]
    generalize hafter : bucketRow headSeq (rest.foldl (bucketRow headSeq) ⟨.empty, [], []⟩) row = after at hstep ⊢
    clear hafter
    cases hstep with
    | refused problem hrow =>
      have hno : ∀ seq, (mirrored row && decide (seqOf row = some seq)) = false := by
        intro seq
        rcases hrow with hrow | hrow <;> simp [hrow]
      refine ⟨?_, fun seq => ?_, fun seq => ?_⟩
      · refine ⟨fun hnil => absurd hnil (by simp), fun hall => ?_⟩
        obtain ⟨hmirrored, hsome⟩ := hall row (by simp)
        rcases hrow with hrow | hrow
        · rw [hrow] at hmirrored; cases hmirrored
        · exact absurd hrow hsome
      · rw [hahead, List.countP_append, List.countP_singleton, hno]
        rfl
      · rw [hmatched, List.filter_append, List.filter_singleton, hno]
        simp
    | ahead at' hrow hseq hlt =>
      have hother : ∀ seq, (mirrored row && decide (seqOf row = some seq)) = decide (at' = seq) := by
        intro seq
        simp [hrow, hseq]
      refine ⟨?_, fun seq => ?_, fun seq => ?_⟩
      · rw [hproblems, List.forall_mem_append]
        simp [hrow, hseq]
      · rw [List.count_append, hahead, List.countP_append, List.countP_singleton, hother, List.count_singleton]
        by_cases heq : at' = seq
        · subst heq
          simp [hlt]
        · simp [heq]
      · rw [hmatched, List.filter_append, List.filter_singleton, hother]
        by_cases heq : at' = seq
        · subst heq
          simp [hlt]
        · simp [heq]
    | matched at' hrow hseq hle =>
      have hother : ∀ seq, (mirrored row && decide (seqOf row = some seq)) = decide (at' = seq) := by
        intro seq
        simp [hrow, hseq]
      refine ⟨?_, fun seq => ?_, fun seq => ?_⟩
      · rw [hproblems, List.forall_mem_append]
        simp [hrow, hseq]
      · rw [hahead, List.countP_append, List.countP_singleton, hother]
        by_cases heq : at' = seq
        · subst heq
          simp [Nat.not_lt.mpr hle]
        · simp [heq]
      · rw [OrderedMap.get?_set, List.filter_append, List.filter_singleton, hother]
        by_cases heq : seq = at'
        · subst heq
          rw [if_pos rfl, Option.getD_some, hmatched]
          simp [Nat.not_lt.mpr hle]
        · rw [if_neg heq, hmatched]
          simp [Ne.symm heq]

theorem sorted_iff (headSeq : Nat) (rows : List WireMirrorRow) :
    (bucketMirrorRows rows headSeq).problems = [] ↔ (∀ row ∈ rows, mirrored row = true ∧ seqOf row ≠ none) ∧
      Contiguous headSeq fun seq =>
        if headSeq < seq then rows.countP (fun row => mirrored row && decide (seqOf row = some seq)) else 0 := by
  obtain ⟨hproblems, hahead, -⟩ := buckets_spec headSeq rows _ rfl
  unfold bucketMirrorRows
  dsimp only
  rw [List.append_eq_nil_iff, hproblems, aheadContiguityProblems_eq_nil]
  simp only [hahead]

theorem rows_of_entry {headSeq : Nat} {rows : List WireMirrorRow} (h : (bucketMirrorRows rows headSeq).problems = [])
    {seq : Nat} (hseq : seq ≤ headSeq) :
    ((bucketMirrorRows rows headSeq).byChainSeq.get? seq).getD [] = rows.filter fun row => decide (seqOf row = some seq) := by
  obtain ⟨-, -, hmatched⟩ := buckets_spec headSeq rows _ rfl
  have hall := ((sorted_iff headSeq rows).mp h).1
  change ((rows.foldl (bucketRow headSeq) ⟨.empty, [], []⟩).byChainSeq.get? seq).getD [] = _
  rw [hmatched, if_neg (Nat.not_lt.mpr hseq)]
  refine List.filter_congr fun row hrow => ?_
  rw [(hall row hrow).1, Bool.true_and]

/-- No row slips through: the sorting reports nothing exactly where each row is the mirror's, with a seq, and the rows
ahead of the head follow it without a gap, one or two for each seq. Then every entry is given all the rows of its seq. -/
theorem rows_sorted_out (headSeq : Nat) (rows : List WireMirrorRow) :
    ((bucketMirrorRows rows headSeq).problems = [] ↔ (∀ row ∈ rows, mirrored row = true ∧ seqOf row ≠ none) ∧
      Contiguous headSeq fun seq => if headSeq < seq then rows.countP (fun row => mirrored row && decide (seqOf row = some seq)) else 0) ∧
    ((bucketMirrorRows rows headSeq).problems = [] → ∀ seq ≤ headSeq,
      ((bucketMirrorRows rows headSeq).byChainSeq.get? seq).getD [] = rows.filter fun row => decide (seqOf row = some seq)) :=
  ⟨sorted_iff headSeq rows, fun h _ hseq => rows_of_entry h hseq⟩

end Maruhi.Audit
