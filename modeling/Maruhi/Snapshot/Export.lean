import Maruhi.Snapshot.Lines

/-!
# The paged export (`do-snapshot-export.ts`, `programs-export.ts`)

One page at a time. The cursor carries where the last page ended and the marks the project must still show.
-/

open Text Utf8 JsonText

namespace Maruhi.Snapshot
open Audit

variable {N : Type}

structure ExportMarks where
  chainHeadSeq : Nat
  chainHeadHashHex : Option JsString
  mutationSeq : Nat
  schemaVersion : Nat
  formatVersion : Nat
  deriving DecidableEq

/-- `AUDIT_SEQ_TABLES` -/
def isAuditSeqTable (name : TableName) : Bool := name = .auditEvents || name = .auditHeadHashes

/-- `rowid` is the last one emitted, -1 before the first. -/
structure ExportCursorState where
  table : Nat
  started : Bool
  rowid : Int
  rows : OrderedMap JsString Nat
  marks : ExportMarks
  exportedSeq : Nat

def marksOf (numbers : Numbers N) (db : ProjectDb N) : ExportMarks :=
  let marks := readWatermarks numbers db
  { chainHeadSeq := marks.chainHeadSeq
    chainHeadHashHex := marks.chainHeadHashHex
    mutationSeq := marks.mutationSeq
    schemaVersion := db.schemaVersion
    formatVersion := snapshotFormatVersion }

def sameMarks (a b : ExportMarks) : Bool := a = b

def auditHeadHashAt (numbers : Numbers N) (db : ProjectDb N) (seq : Nat) : Option JsString :=
  if seq = 0 then some []
  else
    let heads := db.tables .auditHeadHashes
    (heads.get? seq).map fun row => stringOf numbers (heads.column row (lit "head_hash_hex"))

/-! ## One page -/

structure ExportPageInput where
  tables : List TableName
  doIdHex : JsString
  takenAtMs : Nat
  cursor : Option ExportCursorState
  exportedSeq : Nat
  maxRows : Nat
  maxBytes : Nat
  databaseSize : Nat

/-- `next` is none once the trailer was emitted. -/
structure ExportPage where
  lines : List JsString
  next : Option ExportCursorState
  marks : ExportMarks
  auditMaxSeq : Nat

structure PageWriter where
  lines : List JsString
  bytes : Nat

/-- UTF-8, and the newline. -/
def lineBytes (line : JsString) : Nat := (utf8Encode line).length + 1

def PageWriter.emit (writer : PageWriter) (line : JsString) : PageWriter :=
  ⟨writer.lines ++ [line], writer.bytes + lineBytes line⟩

def openCursor (numbers : Numbers N) (db : ProjectDb N) (input : ExportPageInput) (marks : ExportMarks)
    (writer : PageWriter) : ExportCursorState × PageWriter :=
  match input.cursor with
  | some cursor => (cursor, writer)
  | none =>
    (⟨0, false, -1, .empty, marks, input.exportedSeq⟩, writer.emit (lineText numbers (.header
      { schemaVersion := numbers.ofNat db.schemaVersion, takenAtMs := numbers.ofNat input.takenAtMs,
        doIdHex := input.doIdHex })))

def openTable (numbers : Numbers N) (db : ProjectDb N) (name : TableName) (state : ExportCursorState)
    (writer : PageWriter) : ExportCursorState × PageWriter :=
  ({ state with started := true, rowid := -1, rows := state.rows.set (tableText name) 0 },
    writer.emit (lineText numbers (.table (tableText name) (db.tables name).columns)))

/-- The rows of a table an export carries: of the log, and of its heads, those up to the bound. -/
def exportedRows (db : ProjectDb N) (exportedSeq : Nat) (name : TableName) : List (Row N) :=
  if isAuditSeqTable name then (db.tables name).rows.filter fun row => row.rowid ≤ exportedSeq else (db.tables name).rows

def rowText (numbers : Numbers N) (name : TableName) (row : Row N) : JsString :=
  lineText numbers (.row (tableText name) row.values)

/-- The loop over a chunk: it stops after the row that crosses the bound. -/
def emitChunk (numbers : Numbers N) (name : TableName) (maxBytes : Nat) :
    List (Row N) → PageWriter × Int × Nat → PageWriter × Int × Nat
  | [], acc => acc
  | row :: rest, (writer, _, consumed) =>
    let writer := writer.emit (rowText numbers name row)
    if maxBytes ≤ writer.bytes then (writer, row.rowid, consumed + 1)
    else emitChunk numbers name maxBytes rest (writer, row.rowid, consumed + 1)

attribute [grind =] emitChunk

structure EmittedRows where
  state : ExportCursorState
  writer : PageWriter
  consumed : Nat

def emitRows (numbers : Numbers N) (db : ProjectDb N) (name : TableName) (state : ExportCursorState)
    (writer : PageWriter) (limit maxBytes : Nat) : EmittedRows :=
  let chunk := ((exportedRows db state.exportedSeq name).filter fun row => state.rowid < row.rowid).take limit
  let (writer, rowid, consumed) := emitChunk numbers name maxBytes chunk (writer, state.rowid, 0)
  let rows := state.rows.set (tableText name) ((state.rows.get? (tableText name)).getD 0 + consumed)
  let tableDone := consumed = chunk.length && chunk.length < limit
  { consumed := consumed
    writer := writer
    state :=
      if tableDone then { state with table := state.table + 1, started := false, rowid := -1, rows := rows }
      else { state with rowid := rowid, rows := rows } }

/-- `OPS_SNAPSHOT_ROW_PAGE` -/
def opsSnapshotRowPage : Nat := 500

/-- A page's state, its writer and the rows it holds. -/
structure PageState where
  state : ExportCursorState
  writer : PageWriter
  emitted : Nat

/-- One turn of the loop; none where it ends. -/
def pageStep (numbers : Numbers N) (db : ProjectDb N) (order : List TableName) (maxRows maxBytes : Nat)
    (page : PageState) : Option PageState :=
  match order[page.state.table]? with
  | none => none
  | some name =>
    if maxBytes ≤ page.writer.bytes || maxRows ≤ page.emitted then none
    else if !page.state.started then
      let (state, writer) := openTable numbers db name page.state page.writer
      some { page with state := state, writer := writer }
    else
      let limit := min (maxRows - page.emitted) opsSnapshotRowPage
      let step := emitRows numbers db name page.state page.writer limit maxBytes
      some ⟨step.state, step.writer, page.emitted + step.consumed⟩

/-- The loop, for as many turns as `fuel`. -/
def pageLoop (numbers : Numbers N) (db : ProjectDb N) (order : List TableName) (maxRows maxBytes : Nat) :
    Nat → PageState → PageState
  | 0, page => page
  | fuel + 1, page =>
    match pageStep numbers db order maxRows maxBytes page with
    | none => page
    | some page => pageLoop numbers db order maxRows maxBytes fuel page

attribute [grind =] pageLoop

/-- More turns than the loop takes: two for a table, one for a chunk with rows. -/
def pageFuel (order : List TableName) (maxRows : Nat) : Nat := 2 * order.length + maxRows

def trailerOf (numbers : Numbers N) (db : ProjectDb N) (state : ExportCursorState) (databaseSize : Nat) :
    SnapshotTrailer N :=
  { rows := ⟨state.rows.entries.map fun e => (e.1, numbers.ofNat e.2), by
      simpa [List.map_map, Function.comp_def] using state.rows.nodup⟩
    chainHeadSeq := numbers.ofNat state.marks.chainHeadSeq
    chainHeadHashHex := state.marks.chainHeadHashHex
    auditMaxSeq := numbers.ofNat state.exportedSeq
    auditHeadHashHex := auditHeadHashAt numbers db state.exportedSeq
    databaseSizeBytes := numbers.ofNat databaseSize }

/-- None where the project changed. -/
def exportSnapshotPage (numbers : Numbers N) (db : ProjectDb N) (input : ExportPageInput) : Option ExportPage :=
  let order := snapshotTableOrder input.tables
  let marks := marksOf numbers db
  if input.cursor.any fun cursor => !sameMarks cursor.marks marks || order.length < cursor.table then none
  else
    let (state, writer) := openCursor numbers db input marks ⟨[], 0⟩
    let page := pageLoop numbers db order input.maxRows input.maxBytes (pageFuel order input.maxRows) ⟨state, writer, 0⟩
    let state := page.state
    if state.table < order.length || input.maxBytes ≤ page.writer.bytes then
      some { lines := page.writer.lines, next := some state, marks := marks, auditMaxSeq := state.exportedSeq }
    else
      let writer := page.writer.emit (lineText numbers (.trailer (trailerOf numbers db state input.databaseSize)))
      some { lines := writer.lines, next := none, marks := marks, auditMaxSeq := state.exportedSeq }

/-! ## The program -/

/-- `MAX_EXPORT_PAGE_ROWS` -/
def maxExportPageRows : Nat := 2000

/-- `MAX_EXPORT_PAGE_BYTES` -/
def maxExportPageBytes : Nat := 4 * 1024 * 1024

structure DataActor where
  userId : JsString
  apiTokenId : Option JsString
  authMethod : Option JsString

structure ChainHead where
  seq : Nat
  hashHex : JsString

/-- `notOwner` stands for every refusal of `requireMemberState`. -/
inductive DataRejection
  | notOwner
  | exportRateLimited (retryAfterSeconds : Nat)
  | exportChanged
  deriving DecidableEq

/-- What a request brings, and what the calls outside the tables answer: the member check, the export window (the
row of its counter, or how long to wait), the new row's id, and the heads the column is brought forward by. -/
structure ExportRequest (N : Type) where
  actor : DataActor
  member : Option ChainHead
  nowMs : Nat
  window : Except Nat (Row N)
  rowId : JsString
  heads : List JsString
  databaseSize : Nat

def lastAuditSeq (db : ProjectDb N) : Nat := (db.tables .auditEvents).maxRowid

/-- `dataEvent` of `project.exported` -/
def exportedEvent (numbers : Numbers N) (actor : DataActor) (serverTs : Nat) (head : ChainHead) : AuditEventInput N where
  serverTs := serverTs
  clientTs := none
  event := lit "project.exported"
  actorType := lit "user"
  actorUserId := some actor.userId
  actorKeyFingerprintHex := none
  actorApiTokenId := actor.apiTokenId
  actorAuthMethod := actor.authMethod
  targetUserId := none
  targetKeyFingerprintHex := none
  environmentId := none
  variableId := none
  epoch := none
  version := none
  chainSeq := none
  payload := some ⟨.cons (lit "chainHeadSeq") (.num (numbers.ofNat head.seq))
    (.cons (lit "chainHeadHashHex") (.str head.hashHex) .nil), by
      simp only [Value.Held, Members.Held, Members.keys, List.pairwise_cons, List.mem_singleton, forall_eq,
        List.not_mem_nil, false_implies, implies_true, List.Pairwise.nil, and_true, true_and]
      decide⟩

def textColumn : Option JsString → Scalar N
  | none => .null
  | some s => .str s

def numberColumn (numbers : Numbers N) : Option Nat → Scalar N
  | none => .null
  | some n => .num (numbers.ofNat n)

/-- A row of the log, in the order of the columns. -/
def auditValues (numbers : Numbers N) (row : AuditHeadRow) : List (Scalar N) :=
  [.num (numbers.ofNat row.seq), .num (numbers.ofNat row.serverTs), numberColumn numbers row.clientTs, .str row.event,
    .str row.actorType, textColumn row.actorUserId, textColumn row.actorKeyFingerprintHex, textColumn row.actorApiTokenId,
    textColumn row.targetUserId, textColumn row.targetKeyFingerprintHex, textColumn row.environmentId,
    textColumn row.variableId, numberColumn numbers row.epoch, numberColumn numbers row.version,
    numberColumn numbers row.chainSeq, textColumn row.payloadText, textColumn row.rowId]

def appendAudit (numbers : Numbers N) (db : ProjectDb N) (rowId : JsString) (event : AuditEventInput N) : ProjectDb N :=
  let seq := lastAuditSeq db + 1
  (Change.insert .auditEvents ⟨seq, auditValues numbers (auditRow numbers.toNumerals seq rowId event)⟩).apply db

/-- The next head of the column, while the log is longer. -/
def extendHead (numbers : Numbers N) (db : ProjectDb N) (hash : JsString) : ProjectDb N :=
  let seq := (db.tables .auditHeadHashes).maxRowid + 1
  if seq ≤ lastAuditSeq db then (Change.insert .auditHeadHashes ⟨seq, [.num (numbers.ofNat seq), .str hash]⟩).apply db
  else db

/-- The store after the opening, and the seq of its row. -/
def openExport (numbers : Numbers N) (db : ProjectDb N) (request : ExportRequest N) (head : ChainHead) :
    Except DataRejection (ProjectDb N × Nat) :=
  match request.window with
  | .error retryAfterSeconds => .error (.exportRateLimited retryAfterSeconds)
  | .ok row =>
    let db := db.setTable .leaseWindows ((db.tables .leaseWindows).put row)
    let db := appendAudit numbers db request.rowId (exportedEvent numbers request.actor request.nowMs head)
    .ok (request.heads.foldl (extendHead numbers) db, lastAuditSeq db)

def memberOf (value : Value N) (key : String) : Option (Value N) :=
  match value with
  | .obj members => members.get? (lit key)
  | _ => none

/-- Whether the row's payload is the head the cursor names. -/
def payloadNames (numbers : Numbers N) [DecidableEq N] (payload : JsString) (marks : ExportMarks) : Bool :=
  match parse numbers.toNumerals payload with
  | none => false
  | some value =>
    match memberOf value "chainHeadSeq", memberOf value "chainHeadHashHex" with
    | some (.num seq), some .null => seq = numbers.ofNat marks.chainHeadSeq && marks.chainHeadHashHex.isNone
    | some (.num seq), some (.str hash) => seq = numbers.ofNat marks.chainHeadSeq && marks.chainHeadHashHex = some hash
    | _, _ => false

def exportRowBinds (numbers : Numbers N) [DecidableEq N] (db : ProjectDb N) (cursor : ExportCursorState)
    (userId : JsString) : Bool :=
  let log := db.tables .auditEvents
  match log.get? cursor.exportedSeq with
  | none => false
  | some row =>
    log.column row (lit "event") = some (.str (lit "project.exported")) &&
      log.column row (lit "actor_user_id") = some (.str userId) &&
      payloadNames numbers (stringOf numbers (log.column row (lit "payload"))) cursor.marks

/-- A text that is no cursor is `some none`. -/
def continuationOf (numbers : Numbers N) [DecidableEq N] (db : ProjectDb N) (cursor : Option (Option ExportCursorState))
    (userId : JsString) : Except DataRejection (Option ExportCursorState) :=
  match cursor with
  | none => .ok none
  | some none => .error .exportChanged
  | some (some cursor) => if exportRowBinds numbers db cursor userId then .ok (some cursor) else .error .exportChanged

/-- The page, and the store after it. -/
def exportPageProgram (numbers : Numbers N) [DecidableEq N] (doIdHex : JsString) (db : ProjectDb N)
    (request : ExportRequest N) (cursor : Option (Option ExportCursorState)) :
    Except DataRejection (ExportPage × ProjectDb N) := do
  let head ← request.member.elim (.error .notOwner) .ok
  let cursor ← continuationOf numbers db cursor request.actor.userId
  let (db, exportedSeq) ← match cursor with
    | none => openExport numbers db request head
    | some cursor => .ok (db, cursor.exportedSeq)
  match exportSnapshotPage numbers db
    { tables := projectDoTables, doIdHex := doIdHex, takenAtMs := request.nowMs, cursor := cursor,
      exportedSeq := exportedSeq, maxRows := maxExportPageRows, maxBytes := maxExportPageBytes,
      databaseSize := request.databaseSize } with
  | none => .error .exportChanged
  | some page => .ok (page, db)

end Maruhi.Snapshot
