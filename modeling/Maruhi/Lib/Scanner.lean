import Mathlib.Tactic.Common

/-!
# Scanning a stream

A scanner reads its input from left to right: at each position it replaces what it selects there, or
passes one symbol. In a stream it waits where what follows could change what it selects.
-/

/-- A symbol that passes, or symbols that are replaced. -/
inductive Segment (α : Type)
  | literal (symbol : α)
  | replaced (source output : List α)

namespace Segment

variable {α : Type}

def source : Segment α → List α
  | literal symbol => [symbol]
  | replaced source _ => source

attribute [grind =] source

def output : Segment α → List α
  | literal symbol => [symbol]
  | replaced _ output => output

attribute [grind =] output

def isReplaced : Segment α → Bool
  | literal _ => false
  | replaced _ _ => true

end Segment

namespace Scanner

variable {α : Type}

/-- The segments up to where the scan waits, and the input from there on. A selection of `n` takes the symbol
at the position and `n` more. -/
def segmentsUntil (select : List α → Option (Nat × List α)) (waits : List α → Bool) :
    List α → List (Segment α) × List α
  | [] => ([], [])
  | a :: rest =>
    if waits (a :: rest) then ([], a :: rest)
    else match select (a :: rest) with
      | none => (.literal a :: (segmentsUntil select waits rest).1, (segmentsUntil select waits rest).2)
      | some (n, output) =>
        (.replaced ((a :: rest).take (n + 1)) output :: (segmentsUntil select waits (rest.drop n)).1,
          (segmentsUntil select waits (rest.drop n)).2)
termination_by input => input.length
decreasing_by all_goals simp only [List.length_cons, List.length_drop]; omega

/-- The segments of a whole input. -/
def segments (select : List α → Option (Nat × List α)) (input : List α) : List (Segment α) :=
  (segmentsUntil select (fun _ => false) input).1

variable {select : List α → Option (Nat × List α)} {waits : List α → Bool}

@[simp] theorem segmentsUntil_nil : segmentsUntil select waits [] = ([], []) := by simp [segmentsUntil]

theorem segmentsUntil_waits {input : List α} (hne : input ≠ []) (h : waits input = true) :
    segmentsUntil select waits input = ([], input) := by
  cases input with
  | nil => exact absurd rfl hne
  | cons a rest => simp [segmentsUntil, h]

theorem segmentsUntil_literal {a : α} {rest : List α} (h : waits (a :: rest) = false) (hs : select (a :: rest) = none) :
    segmentsUntil select waits (a :: rest) =
      (.literal a :: (segmentsUntil select waits rest).1, (segmentsUntil select waits rest).2) := by
  rw [segmentsUntil]
  simp [h, hs]

theorem segmentsUntil_replaced {a : α} {rest : List α} {n : Nat} {output : List α} (h : waits (a :: rest) = false)
    (hs : select (a :: rest) = some (n, output)) : segmentsUntil select waits (a :: rest) =
      (.replaced ((a :: rest).take (n + 1)) output :: (segmentsUntil select waits (rest.drop n)).1,
        (segmentsUntil select waits (rest.drop n)).2) := by
  rw [segmentsUntil]
  simp [h, hs]

theorem segmentsUntil_source (input : List α) :
    (segmentsUntil select waits input).1.flatMap Segment.source ++ (segmentsUntil select waits input).2 = input := by
  fun_induction segmentsUntil select waits input with
  | case1 => rfl
  | case2 a rest h => rfl
  | case3 a rest h hs ih => simp [Segment.source, ih]
  | case4 a rest h n output hs ih =>
    simp only [List.flatMap_cons, Segment.source, List.append_assoc, ih]
    exact List.take_append_drop (n + 1) (a :: rest)

theorem segmentsUntil_stops (input : List α) :
    (segmentsUntil select waits input).2 = [] ∨ waits (segmentsUntil select waits input).2 = true := by
  fun_induction segmentsUntil select waits input with
  | case1 => exact Or.inl rfl
  | case2 a rest h => exact Or.inr h
  | case3 a rest h hs ih => exact ih
  | case4 a rest h n output hs ih => exact ih

theorem segments_source (input : List α) : (segments select input).flatMap Segment.source = input := by
  have hsource := @segmentsUntil_source α select (fun _ => false) input
  have hrest : (segmentsUntil select (fun _ => false) input).2 = [] := by
    rcases @segmentsUntil_stops α select (fun _ => false) input with h | h
    · exact h
    · cases h
  rw [hrest, List.append_nil] at hsource
  exact hsource

/-- Where a scanner does not wait, what follows changes nothing of what it selects, and what it selects is there. -/
structure Settles (select : List α → Option (Nat × List α)) (waits : List α → Bool) : Prop where
  select_append : ∀ input after, input ≠ [] → waits input = false → select (input ++ after) = select input
  length_le : ∀ input n output, select input = some (n, output) → n < input.length

/-- A scan resumes where it waited, whatever follows. -/
theorem segments_resume (h : Settles select waits) (input after : List α) :
    segments select (input ++ after) =
      (segmentsUntil select waits input).1 ++ segments select ((segmentsUntil select waits input).2 ++ after) := by
  fun_induction segmentsUntil select waits input with
  | case1 => rfl
  | case2 a rest hw => rfl
  | case3 a rest hw hs ih =>
    have hnext : select (a :: (rest ++ after)) = none := by
      rw [← List.cons_append, h.select_append _ _ (List.cons_ne_nil a rest) (by simpa using hw), hs]
    unfold segments at ih ⊢
    rw [List.cons_append, @segmentsUntil_literal α select (fun _ => false) _ _ rfl hnext, ih]
    rfl
  | case4 a rest hw n output hs ih =>
    have hlength := h.length_le _ _ _ hs
    have hnext : select (a :: (rest ++ after)) = some (n, output) := by
      rw [← List.cons_append, h.select_append _ _ (List.cons_ne_nil a rest) (by simpa using hw), hs]
    have htake : (a :: (rest ++ after)).take (n + 1) = (a :: rest).take (n + 1) := by
      rw [← List.cons_append, List.take_append_of_le_length (by omega)]
    have hdrop : (rest ++ after).drop n = rest.drop n ++ after := by
      rw [List.drop_append_of_le_length (Nat.le_of_lt_succ hlength)]
    unfold segments at ih ⊢
    rw [List.cons_append, @segmentsUntil_replaced α select (fun _ => false) _ _ _ _ rfl hnext, htake, hdrop, ih]
    rfl

/-- A scanner that reads a chunk: what it held back and the chunk, up to where it waits. -/
def feed (select : List α → Option (Nat × List α)) (waits : List α → Bool) (state : List (Segment α) × List α)
    (chunk : List α) : List (Segment α) × List α :=
  (state.1 ++ (segmentsUntil select waits (state.2 ++ chunk)).1, (segmentsUntil select waits (state.2 ++ chunk)).2)

/-- However an input is cut, the chunks' segments and those of the rest are its segments. -/
theorem segments_feed (h : Settles select waits) (chunks : List (List α)) (done : List (Segment α)) (held : List α) :
    (chunks.foldl (feed select waits) (done, held)).1 ++ segments select (chunks.foldl (feed select waits) (done, held)).2 =
      done ++ segments select (held ++ chunks.flatten) := by
  induction chunks generalizing done held with
  | nil => simp
  | cons chunk rest ih =>
    rw [List.foldl_cons]
    refine (ih _ _).trans ?_
    rw [List.flatten_cons, ← List.append_assoc held, segments_resume h (held ++ chunk), List.append_assoc]

theorem feed_held (chunks : List (List α)) (done : List (Segment α)) (held : List α)
    (h : held = [] ∨ waits held = true) :
    (chunks.foldl (feed select waits) (done, held)).2 = [] ∨
      waits (chunks.foldl (feed select waits) (done, held)).2 = true := by
  induction chunks generalizing done held with
  | nil => exact h
  | cons chunk rest ih =>
    rw [List.foldl_cons]
    exact ih _ _ (segmentsUntil_stops _)

/-- Every position where the scanner selects is replaced, by the selection there or by an earlier one. -/
theorem segments_cover (input : List α) (position : Nat) (hne : select (input.drop position) ≠ none)
    (hlt : position < input.length) : ∃ before segment after, segments select input = before ++ segment :: after ∧
      segment.isReplaced = true ∧ (before.flatMap Segment.source).length ≤ position ∧
        position < (before.flatMap Segment.source).length + segment.source.length := by
  unfold segments
  generalize hwaits : (fun _ : List α => false) = waits
  fun_induction segmentsUntil select waits input generalizing position with
  | case1 => simp at hlt
  | case2 a rest hw => rw [← hwaits] at hw; cases hw
  | case3 a rest hw hs ih =>
    cases position with
    | zero => exact absurd hs hne
    | succ position =>
      obtain ⟨before, segment, after, heq, hreplaced, hle, hend⟩ := ih position hne (by simpa using hlt)
      refine ⟨.literal a :: before, segment, after, by rw [heq]; rfl, hreplaced, ?_, ?_⟩
      · rw [List.flatMap_cons, List.length_append]
        change 1 + _ ≤ _
        omega
      · rw [List.flatMap_cons, List.length_append]
        change _ < 1 + _ + _
        omega
  | case4 a rest hw n output hs ih =>
    by_cases hin : position < ((a :: rest).take (n + 1)).length
    · exact ⟨[], _, _, rfl, rfl, Nat.zero_le _, by simpa [Segment.source] using hin⟩
    · simp only [List.length_take, List.length_cons, Nat.not_lt] at hin hlt
      have hposition : n + 1 ≤ position := by omega
      have hdrop : (rest.drop n).drop (position - (n + 1)) = (a :: rest).drop position := by
        rw [List.drop_drop, show position = (n + (position - (n + 1))) + 1 by omega, List.drop_succ_cons]
        congr 1
        omega
      obtain ⟨before, segment, after, heq, hreplaced, hle, hend⟩ :=
        ih (position - (n + 1)) (hdrop ▸ hne) (by simp; omega)
      have hlength : ((a :: rest).take (n + 1)).length = n + 1 := by
        rw [List.length_take, List.length_cons]
        omega
      refine ⟨.replaced ((a :: rest).take (n + 1)) output :: before, segment, after, by rw [heq]; rfl, hreplaced, ?_, ?_⟩
      · rw [List.flatMap_cons, List.length_append]
        change ((a :: rest).take (n + 1)).length + _ ≤ _
        omega
      · rw [List.flatMap_cons, List.length_append]
        change _ < ((a :: rest).take (n + 1)).length + _ + _
        omega

theorem segments_selected (input : List α) {segment : Segment α} (hmem : segment ∈ segments select input)
    (hreplaced : segment.isReplaced = true) :
    ∃ rest n output, select rest = some (n, output) ∧ segment = .replaced (rest.take (n + 1)) output := by
  unfold segments at hmem
  generalize (fun _ : List α => false) = waits at hmem
  fun_induction segmentsUntil select waits input with
  | case1 => cases hmem
  | case2 a rest hw => cases hmem
  | case3 a rest hw hs ih =>
    rcases List.mem_cons.mp hmem with rfl | hmem
    · cases hreplaced
    · exact ih hmem
  | case4 a rest hw n output hs ih =>
    rcases List.mem_cons.mp hmem with rfl | hmem
    · exact ⟨_, n, output, hs, rfl⟩
    · exact ih hmem

theorem segments_none (h : ∀ input, select input = none) (input : List α) :
    segments select input = input.map Segment.literal := by
  induction input with
  | nil => simp [segments]
  | cons a rest ih =>
    unfold segments at ih ⊢
    rw [segmentsUntil_literal rfl (h _), ih]
    rfl

end Scanner
