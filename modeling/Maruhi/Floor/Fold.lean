import Maruhi.Floor.Decode
import Maruhi.Floor.Join

/-!
# Folding the log

The functions of `floor-log-fold.ts`: the records of the lines, and the floor they fold to from the
latest usable snapshot.
-/

open Text

namespace Maruhi.Floor

structure FoldState where
  chainHead : Option ChainHeadFloor
  environments : OrderedMap EnvironmentId EnvironmentFloor
  conflicts : OrderedMap JsString FloorConflict
  intents : OrderedMap IntentId FloorIntent

def emptyState : FoldState := ⟨none, OrderedMap.empty, OrderedMap.empty, OrderedMap.empty⟩

/-- `[a, b].toSorted().join("|")` -/
def sortedPair (a b : JsString) : JsString := if b < a then b ++ lit "|" ++ a else a ++ lit "|" ++ b

def conflictKey (conflict : FloorConflict) : JsString :=
  lit conflict.kind.text ++ lit "|" ++ conflict.environmentId.elim [] ResourceId.text ++ lit "|" ++
    conflict.variableId.elim [] ResourceId.text ++ lit "|" ++
    sortedPair (decimal conflict.firstVersion.1 ++ lit ":" ++ conflict.firstHashHex)
      (decimal conflict.secondVersion.1 ++ lit ":" ++ conflict.secondHashHex)

def addConflict (state : FoldState) (conflict : FloorConflict) : FoldState :=
  if state.conflicts.has (conflictKey conflict) then state
  else { state with conflicts := state.conflicts.set (conflictKey conflict) conflict }

def joinHeadInto (state : FoldState) (head : ChainHeadFloor) : FoldState :=
  let joined := joinChainHead state.chainHead head
  { joined.2.foldl addConflict state with chainHead := some joined.1 }

def joinEnvironmentInto (state : FoldState) (environmentId : EnvironmentId) (incoming : EnvironmentFloor) : FoldState :=
  let joined := joinEnvironmentFloor environmentId (state.environments.get? environmentId) incoming
  { joined.2.foldl addConflict state with environments := state.environments.set environmentId joined.1 }

def applyRecord (state : FoldState) : FloorLogRecord → FoldState
  | .head head => joinHeadInto state head
  | .pull head environmentId environment => joinEnvironmentInto (joinHeadInto state head) environmentId environment
  | .push head environmentId variableId floor =>
    joinEnvironmentInto (joinHeadInto state head) environmentId
      { emptyEnvironmentFloor with variableFloors := Record.empty.set variableId floor }
  | .metadata head environmentId observedEpoch side manifest =>
    joinEnvironmentInto (joinHeadInto state head) environmentId
      { emptyEnvironmentFloor with
        observedEpoch := observedEpoch.toNatural
        side := some side
        manifest := some manifest }
  | .manifest head environmentId manifest =>
    -- the epoch of a manifest is an observation of the environment's epoch, not a pull baseline
    joinEnvironmentInto (joinHeadInto state head) environmentId
      { emptyEnvironmentFloor with observedEpoch := manifest.epoch.toNatural, manifest := some manifest }
  | .intent intent => { state with intents := state.intents.set intent.id intent }
  | .resolution intentId _ => { state with intents := state.intents.delete intentId }
  | .snapshot _ _ => state

def FoldState.floor (state : FoldState) : ProjectFloor where
  chainHead := state.chainHead
  environments := Record.fromEntries state.environments
  conflicts := state.conflicts.values
  intents := state.intents.values

def baseStateOf : Option SnapshotState → FoldState
  | none => emptyState
  | some snapshot =>
    snapshot.conflicts.foldl addConflict
      { chainHead := snapshot.chainHead
        environments := snapshot.environments.toMap
        conflicts := OrderedMap.empty
        intents := OrderedMap.ofEntries (snapshot.intents.map fun intent => (intent.id, intent)) }

/-! ## Lines -/

/-- A line of the file: whitespace only, or a text with what `JSON.parse` makes of it. -/
inductive LogLine
  | blank
  | text (parsed : Option Json)

def decodeLine : LogLine → Option FloorLogRecord
  | .blank => none
  | .text parsed => parsed.bind decodeLogRecord

/-- One line of `parseLogLines`: a record, or the place of a line that does not decode. -/
def parseLine (parsed : List FloorLogRecord × List Nat) (line : LogLine) : List FloorLogRecord × List Nat :=
  match line with
  | .blank => parsed
  | .text _ =>
    match decodeLine line with
    | some record => (parsed.1 ++ [record], parsed.2)
    | none => (parsed.1, parsed.2 ++ [parsed.1.length])

attribute [grind =] parseLine

def parseLogLines (lines : List LogLine) : List FloorLogRecord × List Nat := lines.foldl parseLine ([], [])

structure FoldBase where
  foldFrom : Nat
  snapshotIndex : Option Nat
  state : FoldState

def snapshotAt : FloorLogRecord × Nat → Option (Nat × Natural × SnapshotState)
  | (.snapshot folded state, index) => some (index, folded, state)
  | _ => none

/-- The latest snapshot record, with its position. -/
def latestSnapshot (records : List FloorLogRecord) : Option (Nat × Natural × SnapshotState) :=
  records.zipIdx.reverse.findSome? snapshotAt

def foldBase (records : List FloorLogRecord) : FoldBase :=
  match latestSnapshot records with
  | some (index, folded, state) =>
    -- a prefix that ends after the snapshot itself is corrupt: everything is folded again
    if folded.1 ≤ index then ⟨folded.1, some index, baseStateOf (some state)⟩ else ⟨0, some index, baseStateOf none⟩
  | none => ⟨0, none, baseStateOf none⟩

structure FoldOutcome where
  floor : ProjectFloor
  decodedRecords : Nat
  droppedLines : Nat
  recordsSinceSnapshot : Nat

/-- The state that the records of the lines fold to. -/
def foldState (records : List FloorLogRecord) : FoldState :=
  (records.drop (foldBase records).foldFrom).foldl applyRecord (foldBase records).state

def foldRecords (lines : List LogLine) : FoldOutcome :=
  let parsed := parseLogLines lines
  let base := foldBase parsed.1
  { floor := (foldState parsed.1).floor
    decodedRecords := parsed.1.length
    droppedLines := (parsed.2.filter fun position => base.foldFrom ≤ position).length
    recordsSinceSnapshot := base.snapshotIndex.elim parsed.1.length fun index => parsed.1.length - 1 - index }

/-! ## Lemmas -/

def recordsOf (lines : List LogLine) : List FloorLogRecord := lines.filterMap decodeLine

theorem foldl_parseLine (lines : List LogLine) (parsed : List FloorLogRecord × List Nat) :
    (lines.foldl parseLine parsed).1 = parsed.1 ++ recordsOf lines := by
  induction lines generalizing parsed with
  | nil => simp [recordsOf]
  | cons line rest ih =>
    rw [List.foldl_cons, ih]
    unfold recordsOf
    rw [List.filterMap_cons]
    cases line with
    | blank => rfl
    | text value =>
      unfold parseLine
      cases h : decodeLine (.text value) <;> simp

@[simp] theorem parseLogLines_fst (lines : List LogLine) : (parseLogLines lines).1 = recordsOf lines := by
  unfold parseLogLines
  rw [foldl_parseLine]
  simp

theorem floor_foldRecords (lines : List LogLine) : (foldRecords lines).floor = (foldState (recordsOf lines)).floor := by
  simp [foldRecords]

theorem decodedRecords_foldRecords (lines : List LogLine) :
    (foldRecords lines).decodedRecords = (recordsOf lines).length := by
  simp [foldRecords]

theorem latestSnapshot_snoc (records : List FloorLogRecord) (record : FloorLogRecord) :
    latestSnapshot (records ++ [record]) =
      (snapshotAt (record, records.length)).or (latestSnapshot records) := by
  unfold latestSnapshot
  rw [List.zipIdx_append, List.reverse_append]
  simp only [List.zipIdx_singleton, List.reverse_singleton, List.singleton_append, List.findSome?_cons, Nat.zero_add]
  cases snapshotAt (record, records.length) <;> rfl

theorem latestSnapshot_some {records : List FloorLogRecord} {index : Nat} {folded : Natural} {state : SnapshotState}
    (h : latestSnapshot records = some (index, folded, state)) : records[index]? = some (.snapshot folded state) := by
  induction records using List.reverseRecOn with
  | nil => simp [latestSnapshot] at h
  | append_singleton records record ih =>
    rw [latestSnapshot_snoc] at h
    cases hrec : snapshotAt (record, records.length) with
    | none =>
      rw [hrec, Option.none_or] at h
      have hget := ih h
      rw [List.getElem?_append_left (List.getElem?_eq_some_iff.mp hget).1]
      exact hget
    | some found =>
      rw [hrec, Option.some_or, Option.some.injEq] at h
      cases record <;> simp [snapshotAt] at hrec
      simp only [← hrec, Prod.mk.injEq] at h
      obtain ⟨rfl, rfl, rfl⟩ := h
      simp

theorem latestSnapshot_none {records : List FloorLogRecord}
    (h : ∀ folded state, FloorLogRecord.snapshot folded state ∉ records) : latestSnapshot records = none := by
  cases hl : latestSnapshot records with
  | none => rfl
  | some found =>
    obtain ⟨index, folded, state⟩ := found
    exact absurd (List.mem_of_getElem? (latestSnapshot_some hl)) (h folded state)

theorem foldState_of_no_snapshot {records : List FloorLogRecord}
    (h : ∀ folded state, FloorLogRecord.snapshot folded state ∉ records) :
    foldState records = records.foldl applyRecord emptyState := by
  unfold foldState foldBase
  rw [latestSnapshot_none h]
  simp [baseStateOf]

/-! ## Recorded conflicts -/

theorem addConflict_keeps {state : FoldState} {key : JsString} (conflict : FloorConflict)
    (h : state.conflicts.has key = true) : (addConflict state conflict).conflicts.has key = true := by
  unfold addConflict
  split
  · exact h
  · obtain ⟨c, hc⟩ := (OrderedMap.has_iff _ _).mp h
    rw [OrderedMap.has_iff]
    dsimp only
    rw [OrderedMap.get?_set]
    split
    · exact ⟨conflict, rfl⟩
    · exact ⟨c, hc⟩

theorem addConflict_has (state : FoldState) (conflict : FloorConflict) :
    (addConflict state conflict).conflicts.has (conflictKey conflict) = true := by
  unfold addConflict
  split
  · assumption
  · exact (OrderedMap.has_iff _ _).mpr ⟨conflict, OrderedMap.get?_set_self _ _ _⟩

theorem addConflicts_keep {state : FoldState} {key : JsString} (conflicts : List FloorConflict)
    (h : state.conflicts.has key = true) : (conflicts.foldl addConflict state).conflicts.has key = true := by
  induction conflicts generalizing state with
  | nil => exact h
  | cons conflict rest ih => exact ih (addConflict_keeps conflict h)

theorem addConflicts_have (conflicts : List FloorConflict) (state : FoldState) {conflict : FloorConflict}
    (h : conflict ∈ conflicts) : (conflicts.foldl addConflict state).conflicts.has (conflictKey conflict) = true := by
  induction conflicts generalizing state with
  | nil => simp at h
  | cons c rest ih =>
    rw [List.foldl_cons]
    rcases List.mem_cons.mp h with rfl | h
    · exact addConflicts_keep rest (addConflict_has state conflict)
    · exact ih (addConflict state c) h

theorem addConflicts_recorded {conflicts : List FloorConflict} {state : FoldState}
    (h : ∀ c ∈ conflicts, state.conflicts.has (conflictKey c) = true) : conflicts.foldl addConflict state = state := by
  induction conflicts with
  | nil => rfl
  | cons c rest ih =>
    have hc : addConflict state c = state := by
      unfold addConflict
      rw [if_pos (h c (by simp))]
    rw [List.foldl_cons, hc, ih fun d hd => h d (by simp [hd])]

end Maruhi.Floor
