import Maruhi.Lib.Run
import Maruhi.Lib.Sha256
import Maruhi.Snapshot.Operations

/-!
# The pages of one export

Whatever runs between the pages, the lines of all pages are one scan of the store the marks were read from.
-/

open Text JsonText

namespace Maruhi.Snapshot
open Audit

variable {N : Type} {numbers : Numbers N} {doIdHex : JsString}

/-- The pages served so far and the cursor of the next one, over the store now. `start` is the store as the first page
read its marks. -/
inductive ExportRun [DecidableEq N] (numbers : Numbers N) (doIdHex : JsString) :
    ProjectDb N → ProjectDb N → List (List JsString) → Option ExportCursorState → Prop
  | opening {db start : ProjectDb N} {request : ExportRequest N} {page : ExportPage}
      (hpage : exportPageProgram numbers doIdHex db request none = .ok (page, start)) :
      ExportRun numbers doIdHex start start [page.lines] page.next
  | later {start db between after : ProjectDb N} {pages : List (List JsString)} {cursor : ExportCursorState}
      {operations : List (Operation N)} {request : ExportRequest N} {page : ExportPage}
      (hrun : ExportRun numbers doIdHex start db pages (some cursor))
      (hbetween : applyAll db operations = some between)
      (hpage : exportPageProgram numbers doIdHex between request (some (some cursor)) = .ok (page, after)) :
      ExportRun numbers doIdHex start after (pages ++ [page.lines]) page.next

/-! ## The opening -/

theorem extendHead_tables (db : ProjectDb N) (hash : JsString) {name : TableName} (h : name ≠ .auditHeadHashes) :
    (extendHead numbers db hash).tables name = db.tables name := by
  unfold extendHead
  dsimp only
  split_ifs
  · exact Change.apply_tables_ne db _ h
  · rfl

theorem lastAuditSeq_extend (db : ProjectDb N) (heads : List JsString) :
    lastAuditSeq (heads.foldl (extendHead numbers) db) = lastAuditSeq db := by
  induction heads generalizing db with
  | nil => rfl
  | cons hash rest ih =>
    rw [List.foldl_cons, ih]
    exact congrArg Table.maxRowid (extendHead_tables db hash (by decide))

theorem openExport_seq {db start : ProjectDb N} {request : ExportRequest N} {head : ChainHead} {exportedSeq : Nat}
    (h : openExport numbers db request head = .ok (start, exportedSeq)) : exportedSeq = lastAuditSeq start := by
  unfold openExport at h
  split at h
  · cases h
  · simp only [Except.ok.injEq, Prod.mk.injEq] at h
    obtain ⟨rfl, rfl⟩ := h
    exact (lastAuditSeq_extend _ _).symm

/-! ## A page of the program -/

def pageInput (doIdHex : JsString) (request : ExportRequest N) (cursor : Option ExportCursorState) (exportedSeq : Nat) :
    ExportPageInput :=
  { tables := projectDoTables, doIdHex := doIdHex, takenAtMs := request.nowMs, cursor := cursor,
    exportedSeq := exportedSeq, maxRows := maxExportPageRows, maxBytes := maxExportPageBytes,
    databaseSize := request.databaseSize }

variable [DecidableEq N]

theorem exportPageProgram_first {db start : ProjectDb N} {request : ExportRequest N} {page : ExportPage}
    (h : exportPageProgram numbers doIdHex db request none = .ok (page, start)) :
    ∃ head exportedSeq, openExport numbers db request head = .ok (start, exportedSeq) ∧
      exportSnapshotPage numbers start (pageInput doIdHex request none exportedSeq) = some page := by
  unfold exportPageProgram continuationOf at h
  obtain ⟨head, -, h⟩ := Run.bind_ok h
  obtain ⟨cursor, hcursor, h⟩ := Run.bind_ok h
  obtain rfl : none = cursor := Except.ok.inj hcursor
  obtain ⟨⟨opened, exportedSeq⟩, hopen, h⟩ := Run.bind_ok h
  dsimp only at hopen h
  split at h
  · cases h
  · next page' hpage =>
    simp only [Except.ok.injEq, Prod.mk.injEq] at h
    obtain ⟨rfl, rfl⟩ := h
    exact ⟨head, exportedSeq, hopen, hpage⟩

theorem exportPageProgram_later {db after : ProjectDb N} {request : ExportRequest N} {cursor : ExportCursorState}
    {page : ExportPage} (h : exportPageProgram numbers doIdHex db request (some (some cursor)) = .ok (page, after)) :
    after = db ∧ exportSnapshotPage numbers db (pageInput doIdHex request (some cursor) cursor.exportedSeq) = some page := by
  unfold exportPageProgram at h
  obtain ⟨head, -, h⟩ := Run.bind_ok h
  obtain ⟨cursor', hcursor, h⟩ := Run.bind_ok h
  obtain rfl : some cursor = cursor' := by
    unfold continuationOf at hcursor
    dsimp only at hcursor
    split_ifs at hcursor with hbinds
    exact Except.ok.inj hcursor
  obtain ⟨⟨db', exportedSeq⟩, hsame, h⟩ := Run.bind_ok h
  dsimp only at hsame h
  simp only [Except.ok.injEq, Prod.mk.injEq] at hsame
  obtain ⟨rfl, rfl⟩ := hsame
  split at h
  · cases h
  · next page' hpage =>
    simp only [Except.ok.injEq, Prod.mk.injEq] at h
    obtain ⟨rfl, rfl⟩ := h
    exact ⟨rfl, hpage⟩

theorem exportPageProgram_changed {db : ProjectDb N} {request : ExportRequest N} {head : ChainHead}
    {cursor : ExportCursorState} (hmember : request.member = some head) (hmarks : cursor.marks ≠ marksOf numbers db) :
    exportPageProgram numbers doIdHex db request (some (some cursor)) = .error .exportChanged := by
  have hpage : exportSnapshotPage numbers db (pageInput doIdHex request (some cursor) cursor.exportedSeq) = none := by
    refine if_pos ?_
    simp [pageInput, sameMarks, hmarks]
  unfold pageInput at hpage
  unfold exportPageProgram continuationOf
  rw [hmember]
  dsimp only [Option.elim, bind, Except.bind]
  split_ifs with hbinds
  · dsimp only [bind, Except.bind]
    rw [hpage]
  · rfl

/-! ## Every run -/

/-- What holds of the pages served so far. -/
structure Paged (numbers : Numbers N) (doIdHex : JsString) (start db : ProjectDb N) (pages : List (List JsString))
    (next : Option ExportCursorState) (header : SnapshotHeader N) : Prop where
  nonempty : ∀ page ∈ pages, page ≠ []
  schemaVersion : header.schemaVersion = numbers.ofNat start.schemaVersion
  doId : header.doIdHex = doIdHex
  still : Still (lastAuditSeq start) start db
  sameVersion : db.schemaVersion = start.schemaVersion
  sameCounter : db.mutationSeq = start.mutationSeq
  more : ∀ cursor, next = some cursor → Under numbers (snapshotTableOrder projectDoTables) start db
    (lineText numbers (.header header)) (marksOf numbers start) (lastAuditSeq start) pages.flatten cursor
  done : next = none → ∃ tables trailer, Exported numbers (snapshotTableOrder projectDoTables) start db
    (lineText numbers (.header header)) (marksOf numbers start) (lastAuditSeq start) tables trailer pages.flatten

theorem order_nodup : (snapshotTableOrder projectDoTables).Nodup := by decide

theorem paged_of_run {start db : ProjectDb N} {pages : List (List JsString)} {next : Option ExportCursorState}
    (hrun : ExportRun numbers doIdHex start db pages next) :
    ∃ header, Paged numbers doIdHex start db pages next header := by
  induction hrun with
  | @opening _ start request page hpage =>
    obtain ⟨head, exportedSeq, hopen, hpage⟩ := exportPageProgram_first hpage
    obtain rfl := openExport_seq hopen
    let header : SnapshotHeader N := { schemaVersion := numbers.ofNat start.schemaVersion,
                                       takenAtMs := numbers.ofNat request.nowMs, doIdHex := doIdHex }
    obtain ⟨hnonempty, hmore, hdone⟩ := @exportSnapshotPage_spec N numbers start start
      (lineText numbers (.header header)) [] _ _ (marksOf numbers start) (lastAuditSeq start) hpage order_nodup
      (show 0 < maxExportPageRows by decide) (show 0 < maxExportPageBytes by decide) (Grown.refl _ _)
      ⟨⟨[], none, Progress.begin numbers _ start _ _ _⟩, rfl, rfl⟩
    refine ⟨header, ?_, rfl, rfl, Still.refl _ _, rfl, rfl, ?_, ?_⟩
    · intro lines hlines
      rw [List.mem_singleton.mp hlines]
      exact hnonempty
    · simpa [pageInput] using hmore
    · simpa [pageInput] using hdone
  | @later start db between after pages cursor operations request page _ hbetween hpage ih =>
    obtain ⟨header, ih⟩ := ih
    obtain ⟨rfl, hpage⟩ := exportPageProgram_later hpage
    obtain ⟨hunder, hmarks, hseq⟩ := ih.more cursor rfl
    -- the page was served, so the marks still stand
    have hsame : cursor.marks = marksOf numbers after := by
      by_contra hne
      have hnone : exportSnapshotPage numbers after (pageInput doIdHex request (some cursor) cursor.exportedSeq) = none := by
        refine if_pos ?_
        simp [pageInput, sameMarks, hne]
      rw [hnone] at hpage
      cases hpage
    have hversion : after.schemaVersion = start.schemaVersion :=
      (congrArg ExportMarks.schemaVersion (hmarks.symm.trans hsame)).symm
    have hcounter : after.mutationSeq = start.mutationSeq :=
      (congrArg ExportMarks.mutationSeq (hmarks.symm.trans hsame)).symm
    have hstill := (applyAll_still hbetween).2.2 (hversion.trans ih.sameVersion.symm)
      (hcounter.trans ih.sameCounter.symm) (lastAuditSeq start) ih.still.logMax
    have hstill' := ih.still.trans hstill
    obtain ⟨passed, current, hprogress⟩ := hunder
    obtain ⟨hnonempty, hmore, hdone⟩ := @exportSnapshotPage_spec N numbers start after
      (lineText numbers (.header header)) pages.flatten _ _ (marksOf numbers start) (lastAuditSeq start) hpage order_nodup
      (show 0 < maxExportPageRows by decide) (show 0 < maxExportPageBytes by decide) hstill'.grown
      ⟨⟨passed, current, by
        have := hprogress.grow (hseq ▸ hstill.grown)
        simpa [openCursor, pageInput] using this⟩, hmarks, hseq⟩
    refine ⟨header, ?_, ih.schemaVersion, ih.doId, hstill', hversion, hcounter, ?_, ?_⟩
    · intro lines hlines
      rcases List.mem_append.mp hlines with hlines | hlines
      · exact ih.nonempty lines hlines
      · rw [List.mem_singleton.mp hlines]
        exact hnonempty
    · simpa [pageInput] using hmore
    · simpa [pageInput] using hdone

/-- The pages are one scan of the store at the marks: the header, every table's line and rows, and a trailer that counts
the rows. The rows of the head column may be those of a later moment. What touches a tracked table between two pages
ends the export. -/
theorem export_is_snapshot {start db : ProjectDb N} {pages : List (List JsString)} {next : Option ExportCursorState}
    (hrun : ExportRun numbers doIdHex start db pages next) :
    (∀ page ∈ pages, page ≠ []) ∧
      (next = none → ∃ (header : SnapshotHeader N) (tables : List (TableRows N)) (trailer : SnapshotTrailer N),
        header.schemaVersion = numbers.ofNat start.schemaVersion ∧ header.doIdHex = doIdHex ∧
        pages.flatten = lineText numbers (.header header) :: tables.flatMap (tableLines numbers start) ++
          [lineText numbers (.trailer trailer)] ∧
        tables.map TableRows.name = snapshotTableOrder projectDoTables ∧
        trailer.rows.entries = tables.map (fun t => (tableText t.name, numbers.ofNat t.rows.length)) ∧
        (∀ t ∈ tables, isMutationTracked t.name = true → t.rows = (start.tables t.name).rows) ∧
        (∀ t ∈ tables, t.name = .auditEvents →
          t.rows = (start.tables .auditEvents).rows.filter fun row => row.rowid ≤ lastAuditSeq start) ∧
        (∀ t ∈ tables, t.name = .auditHeadHashes →
          exportedRows start (lastAuditSeq start) .auditHeadHashes <+: t.rows ∧
            t.rows <+: exportedRows db (lastAuditSeq start) .auditHeadHashes ∧
            (lastAuditSeq start ≤ (start.tables .auditHeadHashes).maxRowid →
              t.rows = exportedRows start (lastAuditSeq start) .auditHeadHashes))) ∧
      (∀ cursor, next = some cursor → ∀ (before rest : List (Operation N)) (operation : Operation N)
        (middle touched after : ProjectDb N),
        applyAll db before = some middle → operation.apply middle = some touched → operation.touches middle = true →
        applyAll touched rest = some after → ∀ request head, request.member = some head →
          exportPageProgram numbers doIdHex after request (some (some cursor)) = .error .exportChanged) := by
  obtain ⟨header, hpaged⟩ := paged_of_run hrun
  refine ⟨hpaged.nonempty, fun hnext => ?_, ?_⟩
  · obtain ⟨tables, trailer, hexported⟩ := hpaged.done hnext
    refine ⟨header, tables, trailer, hpaged.schemaVersion, hpaged.doId, hexported.lines_eq, hexported.names,
      hexported.counts, ?_, ?_, ?_⟩
    · intro t ht htracked
      obtain ⟨hfront, hback⟩ := hexported.whole t ht (by simp [isKept, htracked])
      rw [exportedRows_tracked htracked] at hfront hback
      rw [hpaged.still.tracked t.name htracked] at hback
      exact hback.eq_of_length_le hfront.length_le
    · intro t ht hname
      obtain ⟨hfront, hback⟩ := hexported.whole t ht (by rw [hname]; rfl)
      rw [hname, hpaged.still.log] at hback
      rw [hname] at hfront
      exact hback.eq_of_length_le hfront.length_le
    · intro t ht hname
      obtain ⟨hfront, hback⟩ := hexported.whole t ht (by rw [hname]; rfl)
      rw [hname] at hfront hback
      refine ⟨hfront, hback, fun hfull => ?_⟩
      rw [hpaged.still.headsFull hfull] at hback
      exact hback.eq_of_length_le hfront.length_le
  · intro cursor hcursor before rest operation middle touched after hbefore hfirst htouches hrest request head hmember
    obtain ⟨-, hmarks, -⟩ := hpaged.more cursor hcursor
    refine exportPageProgram_changed hmember fun hsame => ?_
    refine applyAll_touched hbefore hfirst hrest htouches ⟨?_, ?_⟩
    · rw [hpaged.sameVersion]
      exact (congrArg ExportMarks.schemaVersion (hmarks.symm.trans hsame)).symm
    · rw [hpaged.sameCounter]
      exact (congrArg ExportMarks.mutationSeq (hmarks.symm.trans hsame)).symm

/-! ## A head column that grows between two pages -/

section
omit [DecidableEq N]
variable {db : ProjectDb N}

theorem pageLoop_stop {order : List TableName} {maxRows maxBytes : Nat} {page : PageState}
    (h : pageStep numbers db order maxRows maxBytes page = none) :
    ∀ fuel, pageLoop numbers db order maxRows maxBytes fuel page = page
  | 0 => rfl
  | fuel + 1 => by rw [pageLoop, h]

theorem pageLoop_add {order : List TableName} {maxRows maxBytes : Nat} (fuel more : Nat) (page : PageState) :
    pageLoop numbers db order maxRows maxBytes (fuel + more) page =
      pageLoop numbers db order maxRows maxBytes more (pageLoop numbers db order maxRows maxBytes fuel page) := by
  induction fuel generalizing page with
  | zero => rw [Nat.zero_add, pageLoop]
  | succ fuel ih =>
    rw [Nat.add_right_comm, pageLoop, pageLoop]
    cases hstep : pageStep numbers db order maxRows maxBytes page with
    | none => exact (pageLoop_stop hstep more).symm
    | some later => exact ih later

theorem emitChunk_fit {name : TableName} (maxBytes : Nat) {bound : Nat} {rows : List (Row N)}
    (hbound : ∀ row ∈ rows, lineBytes (rowText numbers name row) ≤ bound) (writer : PageWriter) (rowid : Int)
    (consumed : Nat) (hroom : writer.bytes + rows.length * bound < maxBytes) :
    ∃ out : PageWriter, out.bytes ≤ writer.bytes + rows.length * bound ∧
      emitChunk numbers name maxBytes rows (writer, rowid, consumed) =
        (out, (rows.getLast?.map fun row => (row.rowid : Int)).getD rowid, consumed + rows.length) := by
  induction rows generalizing writer rowid consumed with
  | nil => exact ⟨writer, Nat.le_add_right _ _, rfl⟩
  | cons row rest ih =>
    have hrow := hbound row List.mem_cons_self
    have hbytes : (writer.emit (rowText numbers name row)).bytes ≤ writer.bytes + bound := Nat.add_le_add_left hrow _
    rw [List.length_cons, Nat.succ_mul] at hroom ⊢
    obtain ⟨out, hout, hemit⟩ := ih (fun other hm => hbound other (List.mem_cons_of_mem _ hm))
      (writer.emit (rowText numbers name row)) row.rowid (consumed + 1) (by omega)
    refine ⟨out, by omega, ?_⟩
    unfold emitChunk
    dsimp only
    rw [if_neg (by omega), hemit, List.getLast?_cons]
    congr 2
    · cases rest.getLast? <;> rfl
    · omega

end

theorem exportPageProgram_opening {db start : ProjectDb N} {request : ExportRequest N} {head : ChainHead} {exportedSeq : Nat} {page : ExportPage}
    (hmember : request.member = some head) (hopen : openExport numbers db request head = .ok (start, exportedSeq))
    (hpage : exportSnapshotPage numbers start (pageInput doIdHex request none exportedSeq) = some page) :
    exportPageProgram numbers doIdHex db request none = .ok (page, start) := by
  unfold pageInput at hpage
  unfold exportPageProgram continuationOf
  rw [hmember]
  dsimp only [Option.elim, bind, Except.bind]
  rw [hopen]
  dsimp only
  rw [hpage]

def naturalNumbers : Numbers Nat := { naturals with ofNat := id }

/-- Sixteen bytes, as `row_id` has them. -/
def rowIdOf (seq : Nat) : JsString := encodeHex (Sha256.bigEndian seq 16)

def owner : DataActor := ⟨lit "alice", none, none⟩

def exportRequest (seq : Nat) : ExportRequest Nat where
  actor := owner
  member := some ⟨1, lit "aa"⟩
  nowMs := 1000
  window := .ok ⟨1, [.str (lit "exported"), .num 1000, .num 1]⟩
  rowId := rowIdOf seq
  heads := []
  databaseSize := 4096

/-- The row of the owner's export that the log numbers so. -/
def exportRow (seq : Nat) : Row Nat :=
  ⟨seq, auditValues naturalNumbers (auditRow naturals seq (rowIdOf seq)
    (exportedEvent naturalNumbers owner 1000 ⟨1, lit "aa"⟩))⟩

/-- Its columns between the number and the id. -/
def exportColumns : List (Scalar Nat) := ((exportRow 0).values.drop 1).take 15

theorem exportRow_values (seq : Nat) :
    (exportRow seq).values = .num seq :: (exportColumns ++ [.str (rowIdOf seq)]) := rfl

theorem exportColumns_length :
    ((exportColumns.map encodeScalar).map fun v => (stringifyValue naturalNumbers.toNumerals v).length + 1).sum = 140 := by
  decide +kernel

theorem exportRow_length (seq : Nat) :
    (rowText naturalNumbers .auditEvents (exportRow seq)).length =
      (decimal seq).length + (quoteString (rowIdOf seq)).length + 190 := by
  have hkeys : (quoteString (lit "kind")).length + (quoteString (lit "row")).length + (quoteString (lit "table")).length +
      (quoteString (tableText .auditEvents)).length + (quoteString (lit "values")).length = 40 := by decide
  have htext : naturalNumbers.text seq = decimal seq := rfl
  rw [rowText, exportRow_values]
  simp only [lineText, lineJson, stringify, Members.ofList, stringifyValue, stringifyMembers, List.map_cons,
    Items.ofList, encodeScalar, List.length_cons, List.length_append, length_stringifyItems, List.map_append,
    List.sum_append, List.sum_cons, List.map_nil, List.sum_nil, List.length_nil, exportColumns_length, htext]
  omega

theorem exportRow_bytes {seq : Nat} (h : seq < 10000) :
    lineBytes (rowText naturalNumbers .auditEvents (exportRow seq)) ≤ 2048 := by
  have hnumber : (decimal seq).length ≤ 4 := length_decimal_le (by decide) h
  have hid := length_quoteString_le (rowIdOf seq)
  rw [rowIdOf, encodeHex_length, Sha256.length_bigEndian] at hid
  have hunits := Utf8.length_utf8Encode_le (rowText naturalNumbers .auditEvents (exportRow seq))
  rw [exportRow_length, rowIdOf] at hunits
  unfold lineBytes
  omega

/-! ### The log -/

def exportRows (n : Nat) : List (Row Nat) := (List.range n).map fun i => exportRow (i + 1)

theorem exportRows_add (n m : Nat) : exportRows (n + m) = exportRows n ++ (List.range m).map fun i => exportRow (n + i + 1) := by
  unfold exportRows
  rw [List.range_add, List.map_append, List.map_map]
  rfl

theorem exportRows_ordered (n : Nat) : (exportRows n).Pairwise fun row later => row.rowid < later.rowid :=
  List.pairwise_map.mpr (List.pairwise_lt_range.imp fun h => Nat.succ_lt_succ h)

theorem rowid_of_exportRows {n : Nat} {row : Row Nat} (h : row ∈ exportRows n) : 0 < row.rowid ∧ row.rowid ≤ n := by
  obtain ⟨i, hi, rfl⟩ := List.mem_map.mp h
  exact ⟨Nat.succ_pos i, List.mem_range.mp hi⟩

theorem exportRows_chunk (k limit more : Nat) {rowid : Int} (hrowid : rowid = k ∨ k = 0 ∧ rowid = -1) :
    ((exportRows (k + (limit + more))).filter fun row => rowid < row.rowid).take limit =
      (List.range limit).map fun i => exportRow (k + i + 1) := by
  have hbefore : (exportRows k).filter (fun row => rowid < row.rowid) = [] := by
    refine List.filter_eq_nil_iff.mpr fun row hrow => ?_
    have := rowid_of_exportRows hrow
    simp only [decide_eq_true_eq]
    omega
  have hafter : ((List.range (limit + more)).map fun i => exportRow (k + i + 1)).filter (fun row => rowid < row.rowid) =
      (List.range (limit + more)).map fun i => exportRow (k + i + 1) := by
    refine List.filter_eq_self.mpr fun row hrow => ?_
    obtain ⟨i, -, rfl⟩ := List.mem_map.mp hrow
    have : (exportRow (k + i + 1)).rowid = k + i + 1 := rfl
    simp only [decide_eq_true_eq]
    omega
  rw [exportRows_add, List.filter_append, hbefore, hafter, List.nil_append, List.range_add, List.map_append]
  exact List.take_left' (by simp)

theorem exportRows_succ (n : Nat) : exportRows (n + 1) = exportRows n ++ [exportRow (n + 1)] := exportRows_add n 1

section
variable (n : Nat)

def exportLog : Table Nat := ⟨ddlColumns .auditEvents, exportRows n, exportRows_ordered n⟩

theorem exportLog_maxRowid : (exportLog n).maxRowid = n := by
  show ((exportRows n).getLast?.map Row.rowid).getD 0 = n
  cases n with
  | zero => rfl
  | succ n =>
    rw [exportRows_succ, List.getLast?_concat]
    rfl

theorem exportLog_put : (exportLog n).put (exportRow (n + 1)) = exportLog (n + 1) := by
  have hrows : ((exportLog n).put (exportRow (n + 1))).rows = exportRows n ++ [exportRow (n + 1)] :=
    Table.rows_put fun other hother => Nat.lt_succ_of_le (rowid_of_exportRows hother).2
  rw [← exportRows_succ] at hrows
  unfold exportLog at hrows ⊢
  generalize hput : Table.put _ _ = put at hrows ⊢
  obtain ⟨columns, rows, ordered⟩ := put
  obtain rfl : ddlColumns .auditEvents = columns := congrArg Table.columns hput
  cases hrows
  rfl

def storedDb : ProjectDb Nat :=
  ((Change.insert .chainEntries ⟨1, [.num 1, .str (lit "{}"), .str (lit "aa"), .num 2]⟩).apply baseDb).setTable .auditEvents
    (exportLog n)

/-- The window counts the export. -/
def countedDb : ProjectDb Nat :=
  (storedDb n).setTable .leaseWindows (((storedDb n).tables .leaseWindows).put
    ⟨1, [.str (lit "exported"), .num 1000, .num 1]⟩)

/-- The store as the first page reads its marks: the log has the row of the export, the column no head. -/
def openedDb : ProjectDb Nat := (countedDb n).setTable .auditEvents (exportLog (n + 1))

theorem counted_log : lastAuditSeq (countedDb n) = n := exportLog_maxRowid n

theorem opened_log : lastAuditSeq (openedDb n) = n + 1 := exportLog_maxRowid (n + 1)

theorem opened_append :
    appendAudit naturalNumbers (countedDb n) (rowIdOf (n + 1))
      (exportedEvent naturalNumbers owner 1000 ⟨1, lit "aa"⟩) = openedDb n := by
  have happlies : (Change.insert .auditEvents (exportRow (n + 1))).applies (countedDb n) = true := by
    refine Option.isNone_iff_eq_none.mpr (List.find?_eq_none.mpr fun row hrow => ?_)
    have hle : row.rowid ≤ n := (rowid_of_exportRows hrow).2
    have hrowid : (exportRow (n + 1)).rowid = n + 1 := rfl
    simp only [hrowid, decide_eq_true_eq]
    omega
  have hfires : (Change.insert .auditEvents (exportRow (n + 1))).fires (countedDb n) = false := rfl
  have happend : (Change.insert .auditEvents (exportRow (n + 1))).apply (countedDb n) =
      (countedDb n).setTable .auditEvents ((exportLog n).put (exportRow (n + 1))) := by
    unfold Change.apply
    dsimp only
    rw [if_pos happlies, if_neg (by simp [hfires])]
    rfl
  unfold appendAudit
  rw [counted_log]
  exact happend.trans (by rw [exportLog_put]; rfl)

theorem opened_export :
    openExport naturalNumbers (storedDb n) (exportRequest (n + 1)) ⟨1, lit "aa"⟩ =
      .ok (openedDb n, n + 1) := by
  have h : openExport naturalNumbers (storedDb n) (exportRequest (n + 1)) ⟨1, lit "aa"⟩ =
      .ok (appendAudit naturalNumbers (countedDb n) (rowIdOf (n + 1))
          (exportedEvent naturalNumbers owner 1000 ⟨1, lit "aa"⟩),
        lastAuditSeq (appendAudit naturalNumbers (countedDb n) (rowIdOf (n + 1))
          (exportedEvent naturalNumbers owner 1000 ⟨1, lit "aa"⟩))) := rfl
  rw [h, opened_append, opened_log]

end

theorem opened_exported (n : Nat) : exportedRows (openedDb n) (n + 1) .auditEvents = exportRows (n + 1) := by
  have hfilter : exportedRows (openedDb n) (n + 1) .auditEvents =
      (exportRows (n + 1)).filter fun row => row.rowid ≤ n + 1 := rfl
  rw [hfilter]
  exact List.filter_eq_self.mpr fun row hrow => decide_eq_true (rowid_of_exportRows hrow).2


/-! ### The first page -/

/-- The first page of a log of two thousand rows ends where it has read them. -/
def fullDb : ProjectDb Nat := openedDb 2000

def openedInput : ExportPageInput := pageInput (lit "00") (exportRequest 2001) none 2001

def rowsBefore : OrderedMap JsString Nat :=
  ((snapshotTableOrder projectDoTables).take 6).foldl (fun rows name => rows.set (tableText name) 0) OrderedMap.empty

/-- Among the rows of the log; the tables before it have none. -/
def logCursor (k : Nat) : ExportCursorState where
  table := 6
  started := true
  rowid := if k = 0 then -1 else k
  rows := rowsBefore.set (tableText .auditEvents) k
  marks := marksOf naturalNumbers fullDb
  exportedSeq := 2001

def firstPage : PageState :=
  let opened := openCursor naturalNumbers fullDb openedInput (marksOf naturalNumbers fullDb) ⟨[], 0⟩
  ⟨opened.1, opened.2, 0⟩

/-- The page as far as the log's line. -/
def logPage : PageState :=
  pageLoop naturalNumbers fullDb (snapshotTableOrder projectDoTables) maxExportPageRows maxExportPageBytes 13 firstPage

theorem logPage_opened : ∃ writer : PageWriter, logPage = ⟨logCursor 0, writer, 0⟩ ∧ writer.bytes ≤ 4096 := by
  have h : logPage.state.table = 6 ∧ logPage.state.started = true ∧ logPage.state.rowid = -1 ∧
      logPage.state.rows = (logCursor 0).rows ∧ logPage.state.marks = marksOf naturalNumbers fullDb ∧
      logPage.state.exportedSeq = 2001 ∧ logPage.emitted = 0 ∧ logPage.writer.bytes ≤ 4096 := by decide +kernel
  generalize hpage : logPage = page at h
  obtain ⟨⟨table, started, rowid, rows, marks, exportedSeq⟩, writer, emitted⟩ := page
  obtain ⟨rfl, rfl, rfl, rfl, rfl, rfl, rfl, hbytes⟩ := h
  exact ⟨writer, rfl, hbytes⟩

theorem emitRows_log {k : Nat} (hk : k + 500 ≤ 2001) {writer : PageWriter} (hbytes : writer.bytes ≤ 4096 + k * 2048) :
    ∃ out : PageWriter, out.bytes ≤ 4096 + (k + 500) * 2048 ∧
      emitRows naturalNumbers fullDb .auditEvents (logCursor k) writer 500 maxExportPageBytes =
        ⟨logCursor (k + 500), out, 500⟩ := by
  have hroom : ∀ b, b ≤ writer.bytes + 500 * 2048 → b ≤ 4096 + (k + 500) * 2048 := by omega
  have hchunk : ((exportedRows fullDb 2001 .auditEvents).filter fun row => (logCursor k).rowid < row.rowid).take 500 =
      (List.range 500).map fun i => exportRow (k + i + 1) := by
    have hrowid : (logCursor k).rowid = k ∨ k = 0 ∧ (logCursor k).rowid = -1 := by
      unfold logCursor
      by_cases hzero : k = 0 <;> simp [hzero]
    have hsum : k + (500 + (2001 - k - 500)) = 2000 + 1 := by omega
    rw [show exportedRows fullDb 2001 .auditEvents = exportRows (2000 + 1) from opened_exported 2000, ← hsum]
    exact exportRows_chunk k 500 _ hrowid
  have hbound : ∀ row ∈ (List.range 500).map fun i => exportRow (k + i + 1),
      lineBytes (rowText naturalNumbers .auditEvents row) ≤ 2048 := by
    intro row hrow
    obtain ⟨i, hi, rfl⟩ := List.mem_map.mp hrow
    have := List.mem_range.mp hi
    exact exportRow_bytes (by omega)
  have hlength : ((List.range 500).map fun i => exportRow (k + i + 1)).length = 500 := by simp
  have hlast : ((List.range 500).map fun i => exportRow (k + i + 1)).getLast? = some (exportRow (k + 500)) := by
    rw [List.getLast?_map, List.getLast?_range]
    rfl
  obtain ⟨out, hout, hemit⟩ := emitChunk_fit maxExportPageBytes hbound writer (logCursor k).rowid 0 (by
    rw [hlength]
    unfold maxExportPageBytes
    omega)
  rw [hlength] at hout hemit
  rw [hlast] at hemit
  refine ⟨out, hroom _ hout, ?_⟩
  unfold emitRows
  dsimp only
  rw [show (logCursor k).exportedSeq = 2001 from rfl, hchunk, hemit]
  dsimp only
  rw [hlength]
  have hrows : (logCursor k).rows = rowsBefore.set (tableText .auditEvents) k := rfl
  have hrowid : (if k + 500 = 0 then -1 else ((k + 500 : Nat) : Int)) = (k + 500 : Nat) := if_neg (Nat.succ_ne_zero _)
  have hlong : (decide (0 + 500 = 500) && decide (500 < 500)) = false := by decide
  rw [hlong, if_neg Bool.false_ne_true, hrows, OrderedMap.get?_set_self, OrderedMap.set_set]
  unfold logCursor
  rw [hrowid]
  rfl

theorem logPage_step {k : Nat} (hk : k + 500 ≤ 2000) {writer : PageWriter} (hbytes : writer.bytes ≤ 4096 + k * 2048) :
    ∃ out : PageWriter, out.bytes ≤ 4096 + (k + 500) * 2048 ∧
      pageStep naturalNumbers fullDb (snapshotTableOrder projectDoTables) maxExportPageRows maxExportPageBytes
        ⟨logCursor k, writer, k⟩ = some ⟨logCursor (k + 500), out, k + 500⟩ := by
  have hname : (snapshotTableOrder projectDoTables)[(logCursor k).table]? = some .auditEvents := rfl
  have hopen : (decide (maxExportPageBytes ≤ writer.bytes) || decide (maxExportPageRows ≤ k)) = false := by
    unfold maxExportPageBytes maxExportPageRows
    simp only [Bool.or_eq_false_iff, decide_eq_false_iff_not]
    omega
  have hlimit : min (maxExportPageRows - k) opsSnapshotRowPage = 500 := by
    unfold maxExportPageRows opsSnapshotRowPage
    omega
  obtain ⟨out, hout, hemit⟩ := emitRows_log (by omega) hbytes
  refine ⟨out, hout, ?_⟩
  unfold pageStep
  rw [hname]
  dsimp only
  rw [hopen, if_neg (by decide), if_neg (by simp [logCursor]), hlimit, hemit]

theorem logPage_full : ∃ writer : PageWriter,
    pageLoop naturalNumbers fullDb (snapshotTableOrder projectDoTables) maxExportPageRows maxExportPageBytes
      (pageFuel (snapshotTableOrder projectDoTables) maxExportPageRows - 13) logPage = ⟨logCursor 2000, writer, 2000⟩ := by
  obtain ⟨first, hopened, hfirst⟩ := logPage_opened
  obtain ⟨second, hsecond, hstep⟩ := logPage_step (k := 0) (by decide) (by simpa using hfirst)
  obtain ⟨third, hthird, hstep'⟩ := logPage_step (k := 500) (by decide) hsecond
  obtain ⟨fourth, hfourth, hstep''⟩ := logPage_step (k := 1000) (by decide) hthird
  obtain ⟨last, -, hstep'''⟩ := logPage_step (k := 1500) (by decide) hfourth
  have hend : pageStep naturalNumbers fullDb (snapshotTableOrder projectDoTables) maxExportPageRows maxExportPageBytes
      ⟨logCursor 2000, last, 2000⟩ = none := by
    unfold pageStep
    split
    · rfl
    · rw [if_pos (by simp [maxExportPageRows])]
  have hfuel : pageFuel (snapshotTableOrder projectDoTables) maxExportPageRows - 13 = 2023 + 1 + 1 + 1 + 1 := by decide
  refine ⟨last, ?_⟩
  rw [hfuel, hopened, pageLoop, hstep]
  dsimp only
  rw [pageLoop, hstep']
  dsimp only
  rw [pageLoop, hstep'']
  dsimp only
  rw [pageLoop, hstep''']
  exact pageLoop_stop hend _

theorem opening_page : ∃ lines, exportSnapshotPage naturalNumbers fullDb openedInput =
    some ⟨lines, some (logCursor 2000), marksOf naturalNumbers fullDb, 2001⟩ := by
  obtain ⟨writer, hfull⟩ := logPage_full
  have hsplit : 13 + (pageFuel (snapshotTableOrder projectDoTables) maxExportPageRows - 13) =
      pageFuel (snapshotTableOrder projectDoTables) maxExportPageRows := by decide
  have hopen : openCursor naturalNumbers fullDb openedInput (marksOf naturalNumbers fullDb) ⟨[], 0⟩ =
      (firstPage.state, firstPage.writer) := rfl
  have hmore : (decide ((logCursor 2000).table < (snapshotTableOrder projectDoTables).length) ||
      decide (maxExportPageBytes ≤ writer.bytes)) = true := by simp [logCursor, snapshotTableOrder, projectDoTables]
  unfold logPage at hfull
  rw [← pageLoop_add, hsplit] at hfull
  refine ⟨writer.lines, ?_⟩
  unfold exportSnapshotPage
  dsimp only
  rw [show openedInput.cursor = none from rfl, show openedInput.tables = projectDoTables from rfl,
    show openedInput.maxRows = maxExportPageRows from rfl, show openedInput.maxBytes = maxExportPageBytes from rfl, hopen]
  dsimp only
  rw [show PageState.mk firstPage.state firstPage.writer 0 = firstPage from rfl, hfull, if_neg (by simp), if_pos hmore]
  rfl

/-- What the column is extended by between the pages. -/
def headRow : Row Nat := ⟨1, [.num 1, .str (List.replicate 64 48)]⟩

def extendedDb : ProjectDb Nat := (Change.insert .auditHeadHashes headRow).apply fullDb

theorem closing_page :
    ((exportPageProgram naturalNumbers (lit "00") extendedDb (exportRequest 2001) (some (some (logCursor 2000)))).toOption.map
      fun r => (r.1.next.isNone, r.1.lines.contains (rowText naturalNumbers .auditHeadHashes headRow))) =
        some (true, true) := by
  decide +kernel

theorem opened_heads : exportedRows fullDb (lastAuditSeq fullDb) .auditHeadHashes = [] := by decide +kernel

theorem grown_run :
    ∃ pages, ExportRun naturalNumbers (lit "00") fullDb extendedDb pages none ∧
      rowText naturalNumbers .auditHeadHashes headRow ∈ pages.flatten := by
  obtain ⟨lines, hlines⟩ := opening_page
  have hopening : exportPageProgram naturalNumbers (lit "00") (storedDb 2000) (exportRequest 2001) none =
      .ok (_, fullDb) := exportPageProgram_opening rfl (opened_export 2000) hlines
  have hfirst := ExportRun.opening hopening
  have hbetween : applyAll fullDb [.writes [.insert .auditHeadHashes headRow]] = some extendedDb := rfl
  have hclosing := closing_page
  rcases hpage : exportPageProgram naturalNumbers (lit "00") extendedDb (exportRequest 2001)
    (some (some (logCursor 2000))) with error | ⟨page, after⟩
  · rw [hpage] at hclosing
    cases hclosing
  · rw [hpage] at hclosing
    simp only [Except.toOption, Option.map_some, Option.some.injEq, Prod.mk.injEq, Option.isNone_iff_eq_none,
      List.contains_eq_mem, decide_eq_true_eq] at hclosing
    obtain rfl := (exportPageProgram_later hpage).1
    have hrun := ExportRun.later hfirst hbetween hpage
    rw [hclosing.1] at hrun
    exact ⟨_, hrun, by simp [hclosing.2]⟩

/-- The pages hold a head that was not stored when the marks were read. -/
theorem later_head_exported :
    ∃ start db pages, ExportRun naturalNumbers (lit "00") start db pages none ∧
      exportedRows start (lastAuditSeq start) .auditHeadHashes = [] ∧
      rowText naturalNumbers .auditHeadHashes headRow ∈ pages.flatten := by
  obtain ⟨pages, hrun, hhead⟩ := grown_run
  exact ⟨_, _, pages, hrun, opened_heads, hhead⟩

theorem grown_run_pages :
    ∃ pages, ExportRun naturalNumbers (lit "00") fullDb extendedDb pages none ∧ ∀ page ∈ pages, page ≠ [] := by
  obtain ⟨pages, hrun, -⟩ := grown_run
  exact ⟨pages, hrun, (export_is_snapshot hrun).1⟩

end Maruhi.Snapshot
