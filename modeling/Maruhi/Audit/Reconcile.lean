import Maruhi.Audit.Head

/-!
# Reconciling the audit log (`audit-reconcile.ts`)

The client recomputes the column from all rows, and judges by it the heads that checkpoints notarize and the head
the server declares.
-/

open Text JsonText

namespace Maruhi.Audit
open Chain

section
variable {N : Type} (numerals : Numerals N)

/-- A row as the server shows it to an admin. -/
structure WireAuditEvent (N : Type) where
  columns : AuditColumns
  payload : Option (Value N)

/-- `typeof parsed === "object" && parsed !== null` -/
def isObjectValue : Value N → Bool
  | .arr _ => true
  | .obj _ => true
  | _ => false

def parsePayload (text : Option JsString) : Option (Value N) :=
  (text.bind (parse numerals)).filter isObjectValue

def toAuditEventValue (row : AuditHeadRow) : WireAuditEvent N where
  columns := row.toAuditColumns
  payload := parsePayload numerals row.payloadText

/-- All rows, newest first. -/
def listEvents (rows : List AuditHeadRow) : List (WireAuditEvent N) := rows.reverse.map (toAuditEventValue numerals)

/-- The stored text is written again from the value. -/
def toHeadRow (event : WireAuditEvent N) : AuditHeadRow where
  toAuditColumns := event.columns
  payloadText := event.payload.map (stringify numerals)

def ascendingEvents (events : List (WireAuditEvent N)) : List (WireAuditEvent N) :=
  events.insertionSort fun a b => a.columns.seq ≤ b.columns.seq

end

/-! ## The column -/

structure RecomputedColumn where
  positions : OrderedMap JsString Nat
  finalHeadHex : JsString

/-- One row of the column: none where it is refused. Of equal heads the first keeps its place. -/
def recomputeRow (crypto : Crypto) (column : RecomputedColumn) (row : AuditHeadRow) : Option RecomputedColumn :=
  (nextHead crypto column.finalHeadHex row).map fun head =>
    { positions := if column.positions.has head then column.positions else column.positions.set head row.seq
      finalHeadHex := head }

def recomputeColumn (crypto : Crypto) (rows : List AuditHeadRow) : Option RecomputedColumn :=
  rows.foldlM (recomputeRow crypto) ⟨.empty, []⟩

/-! ## Violations -/

inductive ReconcileViolation
  | missingSeqs (expected seq : Nat)
  | unknownHead (chainSeq : Nat)
  | regression (chainSeq position earlierChainSeq earlierPosition : Nat)
  | mirrorRows (checkpointChainSeq count : Nat)
  | noMirrorRow (checkpointChainSeq chainSeq : Nat)
  | belowFloor (chainSeq position floor checkpointChainSeq : Nat)
  | emptyDeclared
  | unknownDeclared
  deriving DecidableEq, Repr

def gapsFrom : Nat → List Nat → List ReconcileViolation
  | _, [] => []
  | expected, seq :: rest =>
    if seq ≠ expected then .missingSeqs expected seq :: gapsFrom (seq + 1) rest else gapsFrom (expected + 1) rest

attribute [grind =] gapsFrom

def gapViolations (sortedSeqs : List Nat) : List ReconcileViolation := gapsFrom 1 sortedSeqs

/-- The mirror rows of each checkpoint, by its chain seq. -/
def checkpointMirrorIndex {N : Type} (rows : List (WireAuditEvent N)) : OrderedMap Nat (List Nat) :=
  rows.foldl (fun index row =>
    match row.columns.chainSeq with
    | some chainSeq =>
      if row.columns.event = chainCheckpointed then
        index.set chainSeq ((index.get? chainSeq).getD [] ++ [row.columns.seq])
      else index
    | none => index) .empty

structure NotarizedContext where
  chainSeq : Nat
  position : Nat
  previousCheckpointChainSeq : Option Nat
  lastNotarized : Option (Nat × Nat)

def regressionViolation (context : NotarizedContext) : List ReconcileViolation :=
  match context.lastNotarized with
  | none => []
  | some (chainSeq, position) =>
    if position ≤ context.position then [] else [.regression context.chainSeq context.position chainSeq position]

def floorViolation (context : NotarizedContext) (mirrors : OrderedMap Nat (List Nat)) : List ReconcileViolation :=
  match context.previousCheckpointChainSeq with
  | none => []
  | some previous =>
    match (mirrors.get? previous).getD [] with
    | [] => [.noMirrorRow previous context.chainSeq]
    | [floor] => if context.position < floor then [.belowFloor context.chainSeq context.position floor previous] else []
    | seqs => [.mirrorRows previous seqs.length]

/-- The head a checkpoint carries, empty where it notarizes none. -/
def checkpointHead? (entry : ChainEntry) : Option JsString :=
  match entry.operation with
  | .direct (.checkpoint payload) => some payload.auditHeadHashHex
  | _ => none

/-- The variables of the loop over the chain. -/
structure CheckpointScan where
  violations : List ReconcileViolation
  notarized : Nat
  previousCheckpointChainSeq : Option Nat
  lastNotarized : Option (Nat × Nat)

def scanEntry (positions : OrderedMap JsString Nat) (mirrors : OrderedMap Nat (List Nat)) (scan : CheckpointScan)
    (entry : ChainEntry) : CheckpointScan :=
  match checkpointHead? entry with
  | none => scan
  | some head =>
    let scan' :=
      if head = [] then scan
      else match positions.get? head with
      | none => { scan with notarized := scan.notarized + 1, violations := scan.violations ++ [.unknownHead entry.seq] }
      | some position =>
        let context := ⟨entry.seq, position, scan.previousCheckpointChainSeq, scan.lastNotarized⟩
        { scan with
          notarized := scan.notarized + 1
          violations := scan.violations ++ (regressionViolation context ++ floorViolation context mirrors)
          lastNotarized := some (entry.seq, position) }
    { scan' with previousCheckpointChainSeq := some entry.seq }

def checkpointViolations (entries : List ChainEntry) (positions : OrderedMap JsString Nat)
    (mirrors : OrderedMap Nat (List Nat)) : List ReconcileViolation :=
  (entries.foldl (scanEntry positions mirrors) ⟨[], 0, none, none⟩).violations

def declaredHeadViolations (declaredHeadHex : JsString) (column : RecomputedColumn) : List ReconcileViolation :=
  if declaredHeadHex = [] then (if column.finalHeadHex = [] then [] else [.emptyDeclared])
  else if column.positions.has declaredHeadHex then [] else [.unknownDeclared]

/-! ## What the recomputation finds -/

section
variable {crypto : Crypto}

/-- The first position of a head. -/
def firstPosition (heads : List (Nat × JsString)) (head : JsString) : Option Nat :=
  (heads.find? fun e => e.2 = head).map Prod.fst

theorem firstPosition_append_of_some {heads : List (Nat × JsString)} {head : JsString} {position : Nat}
    (h : firstPosition heads head = some position) (heads' : List (Nat × JsString)) :
    firstPosition (heads ++ heads') head = some position := by
  unfold firstPosition at h ⊢
  obtain ⟨e, he, rfl⟩ := Option.map_eq_some_iff.mp h
  rw [List.find?_append, he]
  rfl

theorem recomputeRows_spec {rows : List AuditHeadRow} {column column' : RecomputedColumn}
    (h : rows.foldlM (recomputeRow crypto) column = some column') :
    ∃ heads, Chained crypto column.finalHeadHex rows heads ∧
      column'.finalHeadHex = finalHead column.finalHeadHex heads ∧
      ∀ head, column'.positions.get? head = (column.positions.get? head).or (firstPosition heads head) := by
  induction rows generalizing column with
  | nil =>
    cases h
    exact ⟨[], .nil _, rfl, fun head => by simp [firstPosition]⟩
  | cons row rest ih =>
    rw [List.foldlM_cons] at h
    obtain ⟨mid, hmid, h⟩ := Option.bind_eq_some_iff.mp h
    obtain ⟨next, hnext, rfl⟩ := Option.map_eq_some_iff.mp hmid
    obtain ⟨heads, hchained, hfinal, hpositions⟩ := ih h
    dsimp only at hchained hfinal hpositions
    refine ⟨(row.seq, next) :: heads, .cons hnext hchained, by rw [hfinal, finalHead_cons], fun head => ?_⟩
    rw [hpositions]
    have hfirst : firstPosition ((row.seq, next) :: heads) head =
        if next = head then some row.seq else firstPosition heads head := by
      unfold firstPosition
      by_cases heq : next = head <;> simp [heq]
    rw [hfirst]
    by_cases hhas : column.positions.has next
    · rw [if_pos hhas]
      by_cases heq : next = head
      · obtain ⟨position, hposition⟩ := (OrderedMap.has_iff _ _).mp hhas
        rw [← heq, hposition]
        rfl
      · rw [if_neg heq]
    · rw [if_neg hhas, OrderedMap.get?_set]
      have hnone : column.positions.get? next = none := (OrderedMap.has_eq_false_iff _ _).mp (by simpa using hhas)
      by_cases heq : head = next
      · rw [if_pos heq, if_pos heq.symm, heq, hnone]
        rfl
      · rw [if_neg heq, if_neg fun h => heq h.symm]

theorem recomputeColumn_spec {rows : List AuditHeadRow} {column : RecomputedColumn}
    (h : recomputeColumn crypto rows = some column) :
    ∃ heads, Chained crypto [] rows heads ∧ column.finalHeadHex = finalHead [] heads ∧
      ∀ head, column.positions.get? head = firstPosition heads head := by
  obtain ⟨heads, hchained, hfinal, hpositions⟩ := recomputeRows_spec h
  exact ⟨heads, hchained, hfinal, fun head => by rw [hpositions]; simp⟩

theorem gapsFrom_range {rows : List AuditHeadRow} (n : Nat)
    (h : ∀ i row, rows[i]? = some row → row.seq = n + i) : gapsFrom n (rows.map fun row => row.seq) = [] := by
  induction rows generalizing n with
  | nil => rfl
  | cons row rest ih =>
    have hrow : row.seq = n := h 0 row rfl
    rw [List.map_cons, gapsFrom, if_neg (not_not.mpr hrow)]
    refine ih (n + 1) fun i r hr => ?_
    rw [h (i + 1) r (by simpa using hr)]
    omega

theorem gapViolations_numbered {rows : List AuditHeadRow} (h : Numbered rows) :
    gapViolations (rows.map fun row => row.seq) = [] :=
  gapsFrom_range 1 fun i row hi => by rw [h i row hi]; omega

end

end Maruhi.Audit
