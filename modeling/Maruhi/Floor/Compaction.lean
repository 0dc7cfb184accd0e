import Maruhi.Floor.Fold

/-!
# Compaction is transparent

Processes append to one log, and append snapshots of what they folded from a prefix they read. The log
folds to the floor that its other records fold to.
-/

open Text

namespace Maruhi.Floor

/-! ## States that fold to one floor -/

/-- Two states equal up to the order of the environments. -/
structure Alike (s t : FoldState) : Prop where
  chainHead : s.chainHead = t.chainHead
  environments : Record.fromEntries s.environments = Record.fromEntries t.environments
  conflicts : s.conflicts = t.conflicts
  intents : s.intents = t.intents

namespace Alike
variable {s t u : FoldState}

theorem refl (s : FoldState) : Alike s s := ⟨rfl, rfl, rfl, rfl⟩

theorem trans (h : Alike s t) (h' : Alike t u) : Alike s u :=
  ⟨h.1.trans h'.1, h.2.trans h'.2, h.3.trans h'.3, h.4.trans h'.4⟩

theorem floor (h : Alike s t) : s.floor = t.floor := by
  unfold FoldState.floor
  rw [h.chainHead, h.environments, h.conflicts, h.intents]

theorem get? (h : Alike s t) (id : EnvironmentId) : s.environments.get? id = t.environments.get? id := by
  rw [← Record.get?_fromEntries, h.environments, Record.get?_fromEntries]

theorem addConflict (h : Alike s t) (conflict : FloorConflict) :
    Alike (Floor.addConflict s conflict) (Floor.addConflict t conflict) := by
  unfold Floor.addConflict
  rw [h.conflicts]
  split
  · exact h
  · exact ⟨h.1, h.2, rfl, h.4⟩

theorem addConflicts (h : Alike s t) (conflicts : List FloorConflict) :
    Alike (conflicts.foldl Floor.addConflict s) (conflicts.foldl Floor.addConflict t) := by
  induction conflicts generalizing s t with
  | nil => exact h
  | cons conflict rest ih => exact ih (h.addConflict conflict)

theorem joinHeadInto (h : Alike s t) (head : ChainHeadFloor) :
    Alike (Floor.joinHeadInto s head) (Floor.joinHeadInto t head) := by
  unfold Floor.joinHeadInto
  rw [h.chainHead]
  have hc := h.addConflicts (joinChainHead t.chainHead head).2
  exact ⟨rfl, hc.2, hc.3, hc.4⟩

theorem joinEnvironmentInto (h : Alike s t) (id : EnvironmentId) (incoming : EnvironmentFloor) :
    Alike (Floor.joinEnvironmentInto s id incoming) (Floor.joinEnvironmentInto t id incoming) := by
  unfold Floor.joinEnvironmentInto
  rw [h.get? id]
  have hc := h.addConflicts (joinEnvironmentFloor id (t.environments.get? id) incoming).2
  refine ⟨hc.1, ?_, hc.3, hc.4⟩
  dsimp only
  rw [Record.fromEntries_set, Record.fromEntries_set, h.environments]

theorem applyRecord (h : Alike s t) (record : FloorLogRecord) :
    Alike (Floor.applyRecord s record) (Floor.applyRecord t record) := by
  cases record with
  | head head => exact h.joinHeadInto head
  | pull head id environment => exact (h.joinHeadInto head).joinEnvironmentInto id environment
  | push head id variableId floor => exact (h.joinHeadInto head).joinEnvironmentInto id _
  | metadata head id observedEpoch side manifest => exact (h.joinHeadInto head).joinEnvironmentInto id _
  | manifest head id manifest => exact (h.joinHeadInto head).joinEnvironmentInto id _
  | intent intent => exact ⟨h.1, h.2, h.3, congrArg (·.set intent.id intent) h.4⟩
  | resolution intentId outcome => exact ⟨h.1, h.2, h.3, congrArg (·.delete intentId) h.4⟩
  | snapshot folded state => exact h

theorem applyRecords (h : Alike s t) (records : List FloorLogRecord) :
    Alike (records.foldl Floor.applyRecord s) (records.foldl Floor.applyRecord t) := by
  induction records generalizing s t with
  | nil => exact h
  | cons record rest ih => exact ih (h.applyRecord record)

end Alike

/-! ## A state is rebuilt from its floor -/

/-- Conflicts and intents are stored under their own keys. -/
structure Keyed (s : FoldState) : Prop where
  conflicts : ∀ key conflict, s.conflicts.get? key = some conflict → conflictKey conflict = key
  intents : ∀ id intent, s.intents.get? id = some intent → intent.id = id

theorem keyed_empty : Keyed emptyState where
  conflicts _ _ h := by cases h
  intents _ _ h := by cases h

theorem Keyed.addConflict {s : FoldState} (h : Keyed s) (conflict : FloorConflict) :
    Keyed (Floor.addConflict s conflict) := by
  unfold Floor.addConflict
  split
  · exact h
  · refine ⟨fun key c hc => ?_, h.2⟩
    rw [OrderedMap.get?_set] at hc
    split_ifs at hc with hk
    · cases hc
      exact hk.symm
    · exact h.1 key c hc

theorem Keyed.addConflicts {s : FoldState} (h : Keyed s) (conflicts : List FloorConflict) :
    Keyed (conflicts.foldl Floor.addConflict s) := by
  induction conflicts generalizing s with
  | nil => exact h
  | cons conflict rest ih => exact ih (h.addConflict conflict)

theorem Keyed.joinHeadInto {s : FoldState} (h : Keyed s) (head : ChainHeadFloor) : Keyed (Floor.joinHeadInto s head) := by
  have hc := h.addConflicts (joinChainHead s.chainHead head).2
  exact ⟨hc.1, hc.2⟩

theorem Keyed.joinEnvironmentInto {s : FoldState} (h : Keyed s) (id : EnvironmentId) (incoming : EnvironmentFloor) :
    Keyed (Floor.joinEnvironmentInto s id incoming) := by
  have hc := h.addConflicts (joinEnvironmentFloor id (s.environments.get? id) incoming).2
  exact ⟨hc.1, hc.2⟩

theorem Keyed.applyRecord {s : FoldState} (h : Keyed s) (record : FloorLogRecord) : Keyed (Floor.applyRecord s record) := by
  cases record with
  | head head => exact h.joinHeadInto head
  | pull head id environment => exact (h.joinHeadInto head).joinEnvironmentInto id environment
  | push head id variableId floor => exact (h.joinHeadInto head).joinEnvironmentInto id _
  | metadata head id observedEpoch side manifest => exact (h.joinHeadInto head).joinEnvironmentInto id _
  | manifest head id manifest => exact (h.joinHeadInto head).joinEnvironmentInto id _
  | intent intent =>
    refine ⟨h.1, fun id i hi => ?_⟩
    change (s.intents.set intent.id intent).get? id = some i at hi
    rw [OrderedMap.get?_set] at hi
    split_ifs at hi with hid
    · cases hi
      exact hid.symm
    · exact h.2 id i hi
  | resolution intentId outcome =>
    refine ⟨h.1, fun id i hi => ?_⟩
    change (s.intents.delete intentId).get? id = some i at hi
    rw [OrderedMap.get?_delete] at hi
    split_ifs at hi with hid
    exact h.2 id i hi
  | snapshot folded state => exact h

theorem keyed_applyRecords (records : List FloorLogRecord) : Keyed (records.foldl applyRecord emptyState) := by
  induction records using List.reverseRecOn with
  | nil => exact keyed_empty
  | append_singleton records record ih =>
    rw [List.foldl_append]
    exact ih.applyRecord record

theorem foldl_addConflict_fresh (l : List (JsString × FloorConflict)) (s : FoldState)
    (hkey : ∀ e ∈ l, conflictKey e.2 = e.1) (hn : ((s.conflicts.entries ++ l).map Prod.fst).Nodup) :
    (l.map Prod.snd).foldl addConflict s =
      { s with conflicts := l.foldl (fun m e => m.set e.1 e.2) s.conflicts } := by
  induction l generalizing s with
  | nil => rfl
  | cons e rest ih =>
    have hout : e.1 ∉ s.conflicts.keys := by
      intro hm
      rw [List.map_append, List.nodup_append] at hn
      exact hn.2.2 e.1 hm e.1 (by simp) rfl
    have hnone := OrderedMap.get?_eq_none_of_not_mem_keys hout
    have hadd : addConflict s e.2 = { s with conflicts := s.conflicts.set e.1 e.2 } := by
      unfold addConflict
      rw [hkey e (by simp), (OrderedMap.has_eq_false_iff _ _).mpr hnone]
      rfl
    rw [List.map_cons, List.foldl_cons, hadd, ih _ (fun d hd => hkey d (by simp [hd]))]
    · rfl
    · dsimp only
      rw [OrderedMap.entries_set_of_get?_none e.2 hnone]
      simpa using hn

theorem baseStateOf_floor {s : FoldState} (h : Keyed s) : Alike (baseStateOf (some s.floor)) s := by
  have hconflicts : ∀ e ∈ s.conflicts.entries, conflictKey e.2 = e.1 := fun e he =>
    h.1 e.1 e.2 ((OrderedMap.mem_entries _ _ _).mp he)
  have hintents : (s.intents.values.map fun intent => (intent.id, intent)) = s.intents.entries := by
    unfold OrderedMap.values
    rw [List.map_map]
    apply List.map_congr_left (g := id) _ |>.trans (List.map_id _)
    intro e he
    have hid := h.2 e.1 e.2 ((OrderedMap.mem_entries _ _ _).mp he)
    simp [hid]
  unfold baseStateOf FoldState.floor
  dsimp only
  unfold OrderedMap.values at hintents ⊢
  rw [foldl_addConflict_fresh s.conflicts.entries _ hconflicts (by simpa [OrderedMap.empty] using s.conflicts.nodup),
    hintents]
  refine ⟨rfl, ?_, ?_, ?_⟩
  · simp
  · exact OrderedMap.ofEntries_entries s.conflicts
  · exact OrderedMap.ofEntries_entries s.intents

/-! ## Processes on one log -/

def isSnapshotLine (line : LogLine) : Bool :=
  match decodeLine line with
  | some (.snapshot _ _) => true
  | _ => false

/-- The line of a snapshot record, whatever the number of records it covers. -/
def snapshotLine (outcome : FoldOutcome) : LogLine :=
  .text (some (.object [("r", .str (lit "snapshot")), ("folded", .ofNat outcome.decodedRecords),
    ("state", snapshotStateJson outcome.floor)]))

/-- The log file, and how many of its lines each process has read. -/
structure LogSystem (P : Type) where
  lines : List LogLine
  seen : P → Nat

inductive LogAction (P : Type)
  /-- a record, a torn line or anything else that is no snapshot -/
  | append (line : LogLine) (h : isSnapshotLine line = false)
  | read (process : P) (count : Nat)
  | compact (process : P)

variable {P : Type} [DecidableEq P]

def LogSystem.initial : LogSystem P := ⟨[], fun _ => 0⟩

def LogSystem.step (system : LogSystem P) : LogAction P → LogSystem P
  | .append line _ => { system with lines := system.lines ++ [line] }
  | .read process count =>
    { system with seen := fun p => if p = process then min count system.lines.length else system.seen p }
  | .compact process =>
    { system with
      lines := system.lines ++ [snapshotLine (foldRecords (system.lines.take (system.seen process)))] }

/-- Any interleaving of the processes. -/
def LogSystem.run (actions : List (LogAction P)) : LogSystem P := actions.foldl step initial

/-- Every snapshot covers a prefix of the lines before it, and holds what that prefix folds to. -/
def SnapshotsTrue (lines : List LogLine) : Prop :=
  ∀ index line, lines[index]? = some line → isSnapshotLine line = true →
    ∃ k ≤ index, line = snapshotLine (foldRecords (lines.take k))

theorem SnapshotsTrue.take {lines : List LogLine} (h : SnapshotsTrue lines) (n : Nat) : SnapshotsTrue (lines.take n) := by
  intro index line hline hsnap
  rw [List.getElem?_take] at hline
  split_ifs at hline with hn
  obtain ⟨k, hk, heq⟩ := h index line hline hsnap
  refine ⟨k, hk, ?_⟩
  rw [List.take_take, Nat.min_eq_left (by omega)]
  exact heq

theorem SnapshotsTrue.snoc {lines : List LogLine} {line : LogLine} (h : SnapshotsTrue lines)
    (hline : isSnapshotLine line = true → ∃ k ≤ lines.length, line = snapshotLine (foldRecords (lines.take k))) :
    SnapshotsTrue (lines ++ [line]) := by
  intro index l hl hsnap
  have hinit : ∀ k ≤ lines.length, (lines ++ [line]).take k = lines.take k := fun k hk =>
    List.take_append_of_le_length hk
  by_cases hi : index < lines.length
  · rw [List.getElem?_append_left hi] at hl
    obtain ⟨k, hk, heq⟩ := h index l hl hsnap
    exact ⟨k, hk, by rw [hinit k (by omega)]; exact heq⟩
  · rw [List.getElem?_append_right (by omega)] at hl
    obtain ⟨hlt, rfl⟩ := List.getElem?_eq_some_iff.mp hl
    simp only [List.getElem_singleton] at hsnap ⊢
    obtain ⟨k, hk, heq⟩ := hline hsnap
    exact ⟨k, by omega, by rw [hinit k hk]; exact heq⟩

theorem run_snapshotsTrue (actions : List (LogAction P)) :
    SnapshotsTrue (LogSystem.run actions).lines ∧
      ∀ p, (LogSystem.run actions).seen p ≤ (LogSystem.run actions).lines.length := by
  induction actions using List.reverseRecOn with
  | nil =>
    refine ⟨fun index line h => ?_, fun p => Nat.le_refl _⟩
    simp [LogSystem.run, LogSystem.initial] at h
  | append_singleton actions action ih =>
    have hrun : LogSystem.run (actions ++ [action]) = (LogSystem.run actions).step action := by simp [LogSystem.run]
    obtain ⟨htrue, hseen⟩ := ih
    rw [hrun]
    cases action with
    | append line hline =>
      refine ⟨htrue.snoc fun h => ?_, fun p => ?_⟩
      · rw [hline] at h
        cases h
      · have := hseen p
        simp only [LogSystem.step, List.length_append]
        omega
    | read process count =>
      refine ⟨htrue, fun p => ?_⟩
      have := hseen p
      simp only [LogSystem.step]
      split <;> omega
    | compact process =>
      refine ⟨htrue.snoc fun _ => ⟨_, hseen process, rfl⟩, fun p => ?_⟩
      have := hseen p
      simp only [LogSystem.step, List.length_append]
      omega

/-! ## The fold of a log with true snapshots -/

theorem decodeLine_snapshotLine {outcome : FoldOutcome} {record : FloorLogRecord}
    (h : decodeLine (snapshotLine outcome) = some record) :
    ∃ hle, record = .snapshot ⟨outcome.decodedRecords, hle⟩ outcome.floor := by
  by_cases hle : outcome.decodedRecords ≤ Json.maxSafeInteger
  · have hround := decodeLogRecord_json (.snapshot ⟨outcome.decodedRecords, hle⟩ outcome.floor)
    refine ⟨hle, ?_⟩
    exact (Option.some.inj (hround.symm.trans h)).symm
  · -- a count that is no safe integer does not decode
    have hnone : natural? (.ofNat outcome.decodedRecords) = none := by
      simp [natural?, Json.ofNat, hle]
    have hkind := @decodeLogRecord_of_kind (.object [("r", .str (lit "snapshot")),
      ("folded", .ofNat outcome.decodedRecords), ("state", snapshotStateJson outcome.floor)]) .snapshot
      (by simp [Json.find?, Json.object, List.lookup_cons, lit, RecordKind.text])
    have hmember : decodeMember (.object [("r", .str (lit "snapshot")), ("folded", .ofNat outcome.decodedRecords),
        ("state", snapshotStateJson outcome.floor)]) .snapshot = none := by
      simp [decodeMember, field, Json.find?, Json.object, List.lookup_cons, lit, hnone]
    have hline := hkind.trans hmember
    exact absurd (hline.symm.trans h) (by simp)

theorem recordsOf_append (l l' : List LogLine) : recordsOf (l ++ l') = recordsOf l ++ recordsOf l' :=
  List.filterMap_append

theorem line_of_record {lines : List LogLine} {index : Nat} {record : FloorLogRecord}
    (h : (recordsOf lines)[index]? = some record) :
    ∃ j line, lines[j]? = some line ∧ decodeLine line = some record ∧ index = (recordsOf (lines.take j)).length := by
  induction lines using List.reverseRecOn with
  | nil => simp [recordsOf] at h
  | append_singleton lines line ih =>
    rw [recordsOf_append] at h
    by_cases hi : index < (recordsOf lines).length
    · rw [List.getElem?_append_left hi] at h
      obtain ⟨j, l, hj, hl, hindex⟩ := ih h
      have hlt := (List.getElem?_eq_some_iff.mp hj).1
      refine ⟨j, l, ?_, hl, ?_⟩
      · rw [List.getElem?_append_left hlt]
        exact hj
      · rw [List.take_append_of_le_length (by omega)]
        exact hindex
    · rw [List.getElem?_append_right (by omega)] at h
      refine ⟨lines.length, line, by simp, ?_, ?_⟩
      · cases hline : decodeLine line with
        | none => simp [recordsOf, hline] at h
        | some r =>
          simp only [recordsOf, List.filterMap_cons, hline, List.filterMap_nil] at h
          rcases hz : index - (List.filterMap decodeLine lines).length with _ | m
          · rw [hz] at h
            exact h
          · rw [hz] at h
            cases h
      · have hlt := (List.getElem?_eq_some_iff.mp h).1
        have hone : (recordsOf [line]).length ≤ 1 := List.length_filterMap_le _ _
        rw [List.take_left]
        omega

/-- The fold from the latest snapshot is the fold of everything. -/
theorem foldState_alike (lines : List LogLine) (h : SnapshotsTrue lines) :
    Alike (foldState (recordsOf lines)) ((recordsOf lines).foldl applyRecord emptyState) := by
  induction hn : lines.length using Nat.strongRecOn generalizing lines with
  | _ n ih =>
  unfold foldState foldBase
  cases hl : latestSnapshot (recordsOf lines) with
  | none => exact Alike.refl _
  | some found =>
    obtain ⟨index, folded, state⟩ := found
    obtain ⟨j, line, hj, hline, hindex⟩ := line_of_record (latestSnapshot_some hl)
    have hlt := (List.getElem?_eq_some_iff.mp hj).1
    obtain ⟨k, hk, rfl⟩ := h j line hj (by unfold isSnapshotLine; rw [hline])
    obtain ⟨hle, heq⟩ := decodeLine_snapshotLine hline
    cases heq
    have hsplit : recordsOf lines = recordsOf (lines.take k) ++ recordsOf (lines.drop k) := by
      rw [← recordsOf_append, List.take_append_drop]
    have hcount := decodedRecords_foldRecords (lines.take k)
    have hbefore : (recordsOf (lines.take k)).length ≤ index := by
      have htake : lines.take j = lines.take k ++ (lines.take j).drop k := by
        conv_lhs => rw [← List.take_append_drop k (lines.take j), List.take_take, Nat.min_eq_left hk]
      rw [hindex, htake, recordsOf_append, List.length_append]
      omega
    have hinit := ih (lines.take k).length (by rw [List.length_take]; omega) (lines.take k) (h.take k) rfl
    have hbase := baseStateOf_floor (keyed_applyRecords (recordsOf (lines.take k)))
    rw [← hinit.floor, ← floor_foldRecords] at hbase
    dsimp only
    rw [if_pos (by omega), hcount]
    dsimp only
    rw [hsplit, List.drop_left, List.foldl_append]
    exact hbase.applyRecords (recordsOf (lines.drop k))

/-- The log without its snapshot lines. -/
def withoutSnapshots (lines : List LogLine) : List LogLine := lines.filter fun line => !isSnapshotLine line

theorem no_snapshot_withoutSnapshots (lines : List LogLine) (folded : Natural) (state : SnapshotState) :
    FloorLogRecord.snapshot folded state ∉ recordsOf (withoutSnapshots lines) := by
  intro hmem
  obtain ⟨line, hline, hdecode⟩ := List.mem_filterMap.mp hmem
  have hnot := (List.mem_filter.mp hline).2
  unfold isSnapshotLine at hnot
  rw [hdecode] at hnot
  cases hnot

theorem isSnapshotLine_iff {line : LogLine} :
    isSnapshotLine line = true ↔ ∃ folded state, decodeLine line = some (.snapshot folded state) := by
  unfold isSnapshotLine
  split
  · rename_i folded state h
    simp [h]
  · rename_i h
    simpa using h

theorem foldl_withoutSnapshots (lines : List LogLine) (s : FoldState) :
    (recordsOf (withoutSnapshots lines)).foldl applyRecord s = (recordsOf lines).foldl applyRecord s := by
  induction lines generalizing s with
  | nil => rfl
  | cons line rest ih =>
    unfold withoutSnapshots recordsOf at ih ⊢
    by_cases hs : isSnapshotLine line = true
    · obtain ⟨folded, state, hline⟩ := isSnapshotLine_iff.mp hs
      rw [List.filter_cons_of_neg (by simp [hs]), List.filterMap_cons, hline, List.foldl_cons, ih]
      rfl
    · rw [List.filter_cons_of_pos (by simp [hs]), List.filterMap_cons, List.filterMap_cons]
      cases decodeLine line with
      | none => exact ih s
      | some record => exact ih (applyRecord s record)

/-- The outcome decodes to itself as a snapshot state. -/
def DecodesBack (lines : List LogLine) : Prop :=
  decodeSnapshotState (snapshotStateJson (foldRecords lines).floor) = some (foldRecords lines).floor

theorem compaction_transparency (actions : List (LogAction P)) :
    (foldRecords (LogSystem.run actions).lines).floor =
        (foldRecords (withoutSnapshots (LogSystem.run actions).lines)).floor ∧
      ∀ lines, DecodesBack lines := by
  refine ⟨?_, fun lines => decodeSnapshotState_json _⟩
  have halike := foldState_alike (LogSystem.run actions).lines (run_snapshotsTrue actions).1
  rw [floor_foldRecords, floor_foldRecords, foldState_of_no_snapshot (no_snapshot_withoutSnapshots _),
    foldl_withoutSnapshots]
  exact halike.floor

end Maruhi.Floor
