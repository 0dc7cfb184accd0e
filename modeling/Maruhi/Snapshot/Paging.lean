import Maruhi.Snapshot.Export

/-!
# What a page adds

The tables a cursor has passed, and the rows of the one it is in. Every turn of the loop adds the next lines.
-/

open Text JsonText

namespace Maruhi.Snapshot

variable {N : Type} {numbers : Numbers N}

/-! ## Rows after a rowid -/

/-- The rowid a cursor holds after these rows. -/
def lastRowid (rows : List (Row N)) : Int := (rows.getLast?.map fun row => (row.rowid : Int)).getD (-1)

theorem lastRowid_append (rows : List (Row N)) (row : Row N) : lastRowid (rows ++ [row]) = row.rowid := by
  simp [lastRowid]

theorem lastRowid_of_append (rows more : List (Row N)) :
    lastRowid (rows ++ more) = (more.getLast?.map fun row => (row.rowid : Int)).getD (lastRowid rows) := by
  rcases List.eq_nil_or_concat more with rfl | ⟨init, last, rfl⟩
  · simp
  · rw [List.concat_eq_append, ← List.append_assoc, lastRowid_append]
    simp

theorem exportedRows_ordered (db : ProjectDb N) (exportedSeq : Nat) (name : TableName) :
    (exportedRows db exportedSeq name).Pairwise fun row later => row.rowid < later.rowid := by
  unfold exportedRows
  split_ifs
  · exact (db.tables name).ordered.filter _
  · exact (db.tables name).ordered

theorem filter_after {rows front : List (Row N)} (hordered : rows.Pairwise fun row later => row.rowid < later.rowid)
    (hfront : front <+: rows) : rows.filter (fun row => lastRowid front < row.rowid) = rows.drop front.length := by
  obtain ⟨rest, rfl⟩ := hfront
  rw [List.filter_append, List.drop_left]
  have hpair := List.pairwise_append.mp hordered
  rcases List.eq_nil_or_concat front with rfl | ⟨init, last, rfl⟩
  · refine List.filter_eq_self.mpr fun row _ => ?_
    have hfirst : lastRowid ([] : List (Row N)) = -1 := rfl
    rw [hfirst, decide_eq_true_eq]
    omega
  · rw [List.concat_eq_append] at hpair ⊢
    rw [lastRowid_append]
    have hbefore : (init ++ [last]).filter (fun row => (last.rowid : Int) < row.rowid) = [] := by
      refine List.filter_eq_nil_iff.mpr fun row hrow => ?_
      rcases List.mem_append.mp hrow with hrow | hrow
      · have := (List.pairwise_append.mp hpair.1).2.2 row hrow last (by simp)
        simp only [decide_eq_true_eq]
        omega
      · rw [List.mem_singleton.mp hrow]
        simp
    have hafter : rest.filter (fun row => (last.rowid : Int) < row.rowid) = rest := by
      refine List.filter_eq_self.mpr fun row hrow => ?_
      have := hpair.2.2 last (by simp) row hrow
      simpa using this
    rw [hbefore, hafter, List.nil_append]

/-! ## A chunk -/

theorem emitChunk_spec (name : TableName) (maxBytes : Nat) (chunk : List (Row N)) (writer : PageWriter) (rowid : Int)
    (consumed : Nat) {writer' : PageWriter} {rowid' : Int} {consumed' : Nat}
    (h : emitChunk numbers name maxBytes chunk (writer, rowid, consumed) = (writer', rowid', consumed')) :
    ∃ k ≤ chunk.length, (chunk ≠ [] → 1 ≤ k) ∧ consumed' = consumed + k ∧
      writer'.lines = writer.lines ++ (chunk.take k).map (rowText numbers name) ∧
      rowid' = ((chunk.take k).getLast?.map fun row => (row.rowid : Int)).getD rowid := by
  induction chunk generalizing writer rowid consumed with
  | nil =>
    obtain ⟨rfl, rfl, rfl⟩ : writer = writer' ∧ rowid = rowid' ∧ consumed = consumed' := by simpa [emitChunk] using h
    exact ⟨0, by simp⟩
  | cons row rest ih =>
    unfold emitChunk at h
    dsimp only at h
    split_ifs at h with hbytes
    · obtain ⟨rfl, rfl, rfl⟩ : writer.emit (rowText numbers name row) = writer' ∧ (row.rowid : Int) = rowid' ∧
        consumed + 1 = consumed' := by simpa using h
      exact ⟨1, by simp [PageWriter.emit]⟩
    · obtain ⟨k, hk, -, hconsumed, hlines, hrowid⟩ := ih _ _ _ h
      refine ⟨k + 1, by simpa using hk, fun _ => by omega, by omega, ?_, ?_⟩
      · rw [hlines]
        simp [PageWriter.emit]
      · rw [hrowid, List.take_succ_cons]
        cases rest.take k with
        | nil => rfl
        | cons later rows => simp [List.getLast?_cons]

/-! ## Progress -/

/-- The tables whose rows an export holds fixed: all but the deployment's own counters. -/
def isKept (name : TableName) : Bool := isMutationTracked name || isAuditSeqTable name

/-- The rows emitted of a table. -/
structure TableRows (N : Type) where
  name : TableName
  rows : List (Row N)

def tableLines (numbers : Numbers N) (db : ProjectDb N) (table : TableRows N) : List JsString :=
  lineText numbers (.table (tableText table.name) (db.tables table.name).columns) ::
    table.rows.map (rowText numbers table.name)

/-- What was emitted under a cursor: the tables it has passed, then the one it is in. `start` is the store the marks
were read from. -/
structure Progress (numbers : Numbers N) (order : List TableName) (start db : ProjectDb N) (header : JsString)
    (lines : List JsString) (state : ExportCursorState) (passed : List (TableRows N)) (current : Option (TableRows N)) :
    Prop where
  lines_eq : lines = header :: (passed ++ current.toList).flatMap (tableLines numbers start)
  names : (passed ++ current.toList).map TableRows.name = order.take (state.table + if state.started then 1 else 0)
  table_le : state.table ≤ order.length
  started : current.isSome = state.started
  passed_length : passed.length = state.table
  counts : state.rows.entries = (passed ++ current.toList).map fun t => (tableText t.name, t.rows.length)
  whole : ∀ t ∈ passed, isKept t.name = true →
    exportedRows start state.exportedSeq t.name <+: t.rows ∧ t.rows <+: exportedRows db state.exportedSeq t.name
  part : ∀ t ∈ current, isKept t.name = true →
    t.rows <+: exportedRows db state.exportedSeq t.name ∧ state.rowid = lastRowid t.rows

/-- The rows an export holds fixed are still there, perhaps with more behind them. -/
def Grown (exportedSeq : Nat) (start db : ProjectDb N) : Prop :=
  (∀ name, (db.tables name).columns = (start.tables name).columns) ∧
    ∀ name, isKept name = true → exportedRows start exportedSeq name <+: exportedRows db exportedSeq name

theorem Grown.refl (exportedSeq : Nat) (db : ProjectDb N) : Grown exportedSeq db db :=
  ⟨fun _ => rfl, fun _ _ => List.prefix_rfl⟩

theorem Grown.trans {exportedSeq : Nat} {a b c : ProjectDb N} (h : Grown exportedSeq a b) (h' : Grown exportedSeq b c) :
    Grown exportedSeq a c :=
  ⟨fun name => (h'.1 name).trans (h.1 name), fun name hname => (h.2 name hname).trans (h'.2 name hname)⟩

section
variable {order : List TableName} {start db : ProjectDb N} {header : JsString} {lines : List JsString}
  {state : ExportCursorState} {passed : List (TableRows N)} {current : Option (TableRows N)}

theorem Progress.grow {db' : ProjectDb N} (h : Progress numbers order start db header lines state passed current)
    (hgrown : Grown state.exportedSeq db db') :
    Progress numbers order start db' header lines state passed current :=
  { h with
    whole := fun t ht hname =>
      ⟨(h.whole t ht hname).1, (h.whole t ht hname).2.trans (hgrown.2 t.name hname)⟩
    part := fun t ht hname => ⟨(h.part t ht hname).1.trans (hgrown.2 t.name hname), (h.part t ht hname).2⟩ }

theorem Progress.begin (numbers : Numbers N) (order : List TableName) (db : ProjectDb N) (header : JsString)
    (marks : ExportMarks) (exportedSeq : Nat) :
    Progress numbers order db db header [header] ⟨0, false, -1, .empty, marks, exportedSeq⟩ [] none where
  lines_eq := rfl
  names := rfl
  table_le := Nat.zero_le _
  started := rfl
  passed_length := rfl
  counts := rfl
  whole := by simp
  part := by simp

/-! ## One turn of the loop -/

theorem not_mem_passed {name : TableName} (hnodup : order.Nodup) (hname : order[state.table]? = some name)
    (hpassed : passed.map TableRows.name = order.take state.table) :
    tableText name ∉ (passed.map fun t => (tableText t.name, t.rows.length)).map Prod.fst := by
  intro hmem
  simp only [List.map_map, Function.comp_def, List.mem_map] at hmem
  obtain ⟨t, ht, htext⟩ := hmem
  have hmem : name ∈ order.take state.table := by
    rw [← hpassed, ← tableText_inj htext]
    exact List.mem_map_of_mem ht
  obtain ⟨i, hi⟩ := List.mem_iff_getElem?.mp hmem
  rw [List.getElem?_take] at hi
  split_ifs at hi with hlt
  obtain ⟨hlength, -⟩ := List.getElem?_eq_some_iff.mp hi
  have := (List.getElem?_inj hlength hnodup).mp (hi.trans hname.symm)
  omega

theorem Progress.open_table {name : TableName} {pre : List JsString} {writer : PageWriter}
    (h : Progress numbers order start db header (pre ++ writer.lines) state passed current) (hnodup : order.Nodup)
    (hcolumns : ∀ name, (db.tables name).columns = (start.tables name).columns)
    (hname : order[state.table]? = some name) (hstarted : state.started = false) :
    Progress numbers order start db header (pre ++ (openTable numbers db name state writer).2.lines)
      (openTable numbers db name state writer).1 passed (some ⟨name, []⟩) := by
  have hcurrent : current = none := by simpa [hstarted] using h.started
  subst hcurrent
  have hpassed : passed.map TableRows.name = order.take state.table := by simpa [hstarted] using h.names
  have hfresh := not_mem_passed hnodup hname hpassed
  have hcounts := h.counts
  simp only [Option.toList_none, List.append_nil] at hcounts
  constructor
  · show pre ++ (writer.lines ++ [_]) = _
    rw [← List.append_assoc, h.lines_eq, hcolumns]
    simp [List.flatMap_append, tableLines]
  · show _ = order.take (state.table + 1)
    rw [List.take_add_one, hname]
    simp [hpassed]
  · exact h.table_le
  · rfl
  · exact h.passed_length
  · show upsert (tableText name) 0 state.rows.entries = _
    have hset := OrderedMap.upsert_append (tableText name) 0 _ [] hfresh
    rw [List.append_nil] at hset
    rw [hcounts, hset]
    simp [upsert]
  · exact h.whole
  · intro t ht _
    obtain rfl : ⟨name, []⟩ = t := by simpa using ht
    exact ⟨List.nil_prefix, rfl⟩

theorem Progress.emit_rows {name : TableName} {rows : List (Row N)} {pre : List JsString} {writer : PageWriter}
    (h : Progress numbers order start db header (pre ++ writer.lines) state passed (some ⟨name, rows⟩))
    (hnodup : order.Nodup) (hgrown : Grown state.exportedSeq start db) (hname : order[state.table]? = some name)
    (limit maxBytes : Nat) :
    ∃ passed' current', Progress numbers order start db header
      (pre ++ (emitRows numbers db name state writer limit maxBytes).writer.lines)
      (emitRows numbers db name state writer limit maxBytes).state passed' current' := by
  have hstarted : state.started = true := by simpa using h.started.symm
  have hnames := h.names
  rw [hstarted, if_pos rfl, List.take_add_one, hname] at hnames
  have hpassed : passed.map TableRows.name = order.take state.table := by simpa using hnames
  have hfresh := not_mem_passed hnodup hname hpassed
  generalize hchunk : ((exportedRows db state.exportedSeq name).filter fun row => state.rowid < row.rowid).take limit =
    chunk
  rcases hemit : emitChunk numbers name maxBytes chunk (writer, state.rowid, 0) with ⟨writer', rowid', consumed⟩
  obtain ⟨k, hk, -, hconsumed, hlines, hrowid⟩ := emitChunk_spec name maxBytes chunk _ _ _ hemit
  rw [Nat.zero_add] at hconsumed
  subst hconsumed
  -- the lines and the counts, whether or not the table ends here
  have hwritten : pre ++ writer'.lines =
      header :: (passed ++ [(⟨name, rows ++ chunk.take consumed⟩ : TableRows N)]).flatMap (tableLines numbers start) := by
    rw [hlines, ← List.append_assoc, h.lines_eq]
    simp [List.flatMap_append, tableLines]
  have hget : state.rows.get? (tableText name) = some rows.length := by
    refine (OrderedMap.mem_entries _ _ _).mp ?_
    rw [h.counts]
    simp
  have hcounts : (state.rows.set (tableText name) (rows.length + consumed)).entries =
      (passed ++ [(⟨name, rows ++ chunk.take consumed⟩ : TableRows N)]).map fun t => (tableText t.name, t.rows.length) := by
    show upsert (tableText name) _ state.rows.entries = _
    rw [h.counts, Option.toList_some, List.map_append, OrderedMap.upsert_append _ _ _ _ hfresh]
    simp [upsert, Nat.min_eq_left hk]
  -- a kept table's rows are a scan of it
  have hscan : isKept name = true → chunk = ((exportedRows db state.exportedSeq name).drop rows.length).take limit ∧
      rows ++ chunk.take consumed <+: exportedRows db state.exportedSeq name ∧
      rowid' = lastRowid (rows ++ chunk.take consumed) := by
    intro hkept
    obtain ⟨hfront, hlast⟩ := h.part _ rfl hkept
    have hdrop := filter_after (exportedRows_ordered db state.exportedSeq name) hfront
    rw [← hlast] at hdrop
    have hchunk' : chunk = ((exportedRows db state.exportedSeq name).drop rows.length).take limit := by
      rw [← hchunk, hdrop]
    refine ⟨hchunk', ?_, ?_⟩
    · obtain ⟨rest, hrest⟩ := hfront
      rw [hchunk', ← hrest, List.drop_left, List.take_take]
      exact (List.prefix_append_right_inj rows).mpr (List.take_prefix _ _)
    · rw [hrowid, lastRowid_of_append, ← hlast]
  have hstep : (emitRows numbers db name state writer limit maxBytes).writer = writer' ∧
      (emitRows numbers db name state writer limit maxBytes).state =
        if consumed = chunk.length ∧ chunk.length < limit then
          { state with table := state.table + 1, started := false, rowid := -1,
                       rows := state.rows.set (tableText name) (rows.length + consumed) }
        else { state with rowid := rowid', rows := state.rows.set (tableText name) (rows.length + consumed) } := by
    unfold emitRows
    dsimp only
    rw [hchunk, hemit, hget]
    simp
  rw [hstep.1, hstep.2]
  obtain ⟨htable, -⟩ := List.getElem?_eq_some_iff.mp hname
  by_cases hdone : consumed = chunk.length ∧ chunk.length < limit
  · rw [if_pos hdone]
    refine ⟨passed ++ [⟨name, rows ++ chunk.take consumed⟩], none, ?_⟩
    constructor
    · simpa using hwritten
    · simp [List.take_add_one, hname, hpassed]
    · exact htable
    · rfl
    · simp [h.passed_length]
    · simpa using hcounts
    · intro t ht hkept
      rcases List.mem_append.mp ht with ht | ht
      · exact h.whole t ht hkept
      · obtain rfl := List.mem_singleton.mp ht
        obtain ⟨hchunk', hscanned, -⟩ := hscan hkept
        refine ⟨?_, hscanned⟩
        have hall : rows ++ chunk.take consumed = exportedRows db state.exportedSeq name := by
          obtain ⟨rest, hrest⟩ := (h.part _ rfl hkept).1
          have hlength := hdone.2
          rw [← hrest, List.drop_left] at hchunk'
          rw [hchunk', List.length_take] at hlength
          rw [hdone.1, List.take_length, hchunk', List.take_of_length_le (by omega)]
          exact hrest
        show exportedRows start state.exportedSeq name <+: rows ++ chunk.take consumed
        rw [hall]
        exact hgrown.2 name hkept
    · simp
  · rw [if_neg hdone]
    refine ⟨passed, some ⟨name, rows ++ chunk.take consumed⟩, ?_⟩
    constructor
    · exact hwritten
    · simp [hstarted, List.take_add_one, hname, hpassed]
    · exact h.table_le
    · exact h.started
    · exact h.passed_length
    · exact hcounts
    · exact h.whole
    · intro t ht hkept
      obtain rfl : ⟨name, rows ++ chunk.take consumed⟩ = t := by simpa using ht
      exact (hscan hkept).2

end

/-! ## The loop ends -/

theorem emitRows_keeps (db : ProjectDb N) (name : TableName) (state : ExportCursorState) (writer : PageWriter)
    (limit maxBytes : Nat) :
    (emitRows numbers db name state writer limit maxBytes).state.marks = state.marks ∧
      (emitRows numbers db name state writer limit maxBytes).state.exportedSeq = state.exportedSeq := by
  unfold emitRows
  dsimp only
  split_ifs <;> exact ⟨rfl, rfl⟩

theorem emitRows_advances (db : ProjectDb N) (name : TableName) (state : ExportCursorState) (writer : PageWriter)
    {limit : Nat} (hlimit : 0 < limit) (maxBytes : Nat) :
    (emitRows numbers db name state writer limit maxBytes).state.table = state.table + 1 ∧
        (emitRows numbers db name state writer limit maxBytes).state.started = false ∨
      (emitRows numbers db name state writer limit maxBytes).state.table = state.table ∧
        (emitRows numbers db name state writer limit maxBytes).state.started = state.started ∧
        1 ≤ (emitRows numbers db name state writer limit maxBytes).consumed := by
  generalize hchunk : ((exportedRows db state.exportedSeq name).filter fun row => state.rowid < row.rowid).take limit =
    chunk
  rcases hemit : emitChunk numbers name maxBytes chunk (writer, state.rowid, 0) with ⟨writer', rowid', consumed⟩
  obtain ⟨k, -, hsome, hconsumed, -⟩ := emitChunk_spec name maxBytes chunk _ _ _ hemit
  unfold emitRows
  dsimp only
  rw [hchunk, hemit]
  dsimp only
  by_cases hempty : chunk = []
  · subst hempty
    obtain rfl : consumed = 0 := by
      have : emitChunk numbers name maxBytes [] (writer, state.rowid, 0) = (writer, state.rowid, 0) := rfl
      rw [this] at hemit
      exact (Prod.ext_iff.mp (Prod.ext_iff.mp hemit).2).2.symm
    refine Or.inl ?_
    rw [if_pos (by simpa using hlimit)]
    exact ⟨rfl, rfl⟩
  · have := hsome hempty
    split_ifs
    · exact Or.inl ⟨rfl, rfl⟩
    · exact Or.inr ⟨rfl, rfl, by omega⟩

/-- Nothing written means nothing counted. -/
def Blank (page : PageState) : Prop := page.writer.lines = [] → page.writer.bytes = 0 ∧ page.emitted = 0

theorem emitRows_blank (db : ProjectDb N) (name : TableName) (page : PageState) (limit maxBytes : Nat) (h : Blank page) :
    Blank ⟨(emitRows numbers db name page.state page.writer limit maxBytes).state,
      (emitRows numbers db name page.state page.writer limit maxBytes).writer,
      page.emitted + (emitRows numbers db name page.state page.writer limit maxBytes).consumed⟩ := by
  generalize hchunk : ((exportedRows db page.state.exportedSeq name).filter fun row =>
    page.state.rowid < row.rowid).take limit = chunk
  rcases hemit : emitChunk numbers name maxBytes chunk (page.writer, page.state.rowid, 0) with ⟨writer', rowid', consumed⟩
  obtain ⟨k, hk, hsome, hconsumed, hlines, -⟩ := emitChunk_spec name maxBytes chunk _ _ _ hemit
  unfold emitRows
  dsimp only
  rw [hchunk, hemit]
  intro hnil
  dsimp only at hnil ⊢
  rw [hlines, List.append_eq_nil_iff, List.map_eq_nil_iff] at hnil
  obtain ⟨hnil, htake⟩ := hnil
  have hempty : chunk = [] := by
    by_contra hne
    have := hsome hne
    rcases List.take_eq_nil_iff.mp htake with hzero | hempty
    · omega
    · exact hne hempty
  subst hempty
  obtain ⟨hbytes, hemitted⟩ := h hnil
  have : emitChunk numbers name maxBytes [] (page.writer, page.state.rowid, 0) = (page.writer, page.state.rowid, 0) := rfl
  rw [this] at hemit
  obtain ⟨hwriter, hrest⟩ := Prod.ext_iff.mp hemit
  have hzero : 0 = consumed := (Prod.ext_iff.mp hrest).2
  dsimp only at hwriter
  rw [← hwriter, ← hzero, hbytes, hemitted]
  exact ⟨rfl, rfl⟩

/-- The turns that are left at most. -/
def turnsLeft (order : List TableName) (maxRows : Nat) (page : PageState) : Nat :=
  2 * (order.length - page.state.table) - (if page.state.started then 1 else 0) + (maxRows - page.emitted)

section
variable {order : List TableName} {start db : ProjectDb N} {header : JsString} {pre : List JsString}
  {maxRows maxBytes : Nat} {page page' : PageState}

theorem pageStep_cases (h : pageStep numbers db order maxRows maxBytes page = some page') :
    ∃ name, order[page.state.table]? = some name ∧ page.writer.bytes < maxBytes ∧ page.emitted < maxRows ∧
      (page.state.started = false ∧ page' = ⟨(openTable numbers db name page.state page.writer).1,
          (openTable numbers db name page.state page.writer).2, page.emitted⟩ ∨
        page.state.started = true ∧ ∃ limit, 0 < limit ∧ page' =
          ⟨(emitRows numbers db name page.state page.writer limit maxBytes).state,
            (emitRows numbers db name page.state page.writer limit maxBytes).writer,
            page.emitted + (emitRows numbers db name page.state page.writer limit maxBytes).consumed⟩) := by
  unfold pageStep at h
  split at h
  · cases h
  · next name hname =>
    simp only [Bool.or_eq_true, decide_eq_true_eq, Bool.not_eq_true'] at h
    split_ifs at h with hbound hstarted
    · refine ⟨name, hname, by omega, by omega, Or.inl ⟨hstarted, ?_⟩⟩
      exact (Option.some.inj h).symm
    · refine ⟨name, hname, by omega, by omega, Or.inr ⟨by simpa using hstarted, _, ?_, (Option.some.inj h).symm⟩⟩
      exact Nat.lt_min.mpr ⟨by omega, by decide⟩

theorem pageStep_keeps (h : pageStep numbers db order maxRows maxBytes page = some page') :
    page'.state.marks = page.state.marks ∧ page'.state.exportedSeq = page.state.exportedSeq := by
  obtain ⟨name, -, -, -, ⟨-, rfl⟩ | ⟨-, limit, -, rfl⟩⟩ := pageStep_cases h
  · exact ⟨rfl, rfl⟩
  · exact emitRows_keeps _ _ _ _ _ _

theorem pageStep_blank (h : pageStep numbers db order maxRows maxBytes page = some page') (hblank : Blank page) :
    Blank page' := by
  obtain ⟨name, -, -, -, ⟨-, rfl⟩ | ⟨-, limit, -, rfl⟩⟩ := pageStep_cases h
  · intro hnil
    simp [openTable, PageWriter.emit] at hnil
  · exact emitRows_blank _ _ _ _ _ hblank

theorem turnsLeft_pageStep (h : pageStep numbers db order maxRows maxBytes page = some page') :
    turnsLeft order maxRows page' < turnsLeft order maxRows page := by
  obtain ⟨name, hname, -, hrows, hcases⟩ := pageStep_cases h
  obtain ⟨hlt, -⟩ := List.getElem?_eq_some_iff.mp hname
  unfold turnsLeft
  rcases hcases with ⟨hstarted, rfl⟩ | ⟨hstarted, limit, hlimit, rfl⟩
  · simp only [openTable, hstarted, if_pos, Bool.false_eq_true, if_false]
    omega
  · dsimp only
    rw [hstarted, if_pos rfl]
    rcases emitRows_advances db name page.state page.writer hlimit maxBytes with ⟨htable, hopen⟩ | ⟨htable, hopen, hsome⟩
    · rw [htable, hopen, if_neg (by simp)]
      omega
    · rw [htable, hopen, hstarted, if_pos rfl]
      omega

theorem Progress.step {passed : List (TableRows N)} {current : Option (TableRows N)}
    (h : Progress numbers order start db header (pre ++ page.writer.lines) page.state passed current)
    (hnodup : order.Nodup) (hgrown : Grown page.state.exportedSeq start db)
    (hstep : pageStep numbers db order maxRows maxBytes page = some page') :
    ∃ passed' current', Progress numbers order start db header (pre ++ page'.writer.lines) page'.state passed' current' := by
  obtain ⟨name, hname, -, -, ⟨hstarted, rfl⟩ | ⟨hstarted, limit, -, rfl⟩⟩ := pageStep_cases hstep
  · exact ⟨_, _, h.open_table hnodup hgrown.1 hname hstarted⟩
  · obtain ⟨⟨other, rows⟩, rfl⟩ : ∃ t, current = some t := Option.isSome_iff_exists.mp (by rw [h.started, hstarted])
    have hnames := h.names
    rw [hstarted, if_pos rfl, List.take_add_one, hname] at hnames
    obtain rfl : other = name := by
      have hlast := congrArg List.getLast? hnames
      simpa using hlast
    exact h.emit_rows hnodup hgrown hname limit maxBytes

/-- The loop keeps what every turn keeps, and ends because no turn is left. -/
theorem pageLoop_spec (P : PageState → Prop) (hP : ∀ page page', P page →
    pageStep numbers db order maxRows maxBytes page = some page' → P page') (fuel : Nat) (page : PageState)
    (hfuel : turnsLeft order maxRows page ≤ fuel) (h : P page) :
    P (pageLoop numbers db order maxRows maxBytes fuel page) ∧
      pageStep numbers db order maxRows maxBytes (pageLoop numbers db order maxRows maxBytes fuel page) = none := by
  induction fuel generalizing page with
  | zero =>
    refine ⟨h, ?_⟩
    cases hstep : pageStep numbers db order maxRows maxBytes page with
    | none => exact hstep
    | some page' =>
      have := turnsLeft_pageStep hstep
      omega
  | succ fuel ih =>
    unfold pageLoop
    cases hstep : pageStep numbers db order maxRows maxBytes page with
    | none => exact ⟨h, hstep⟩
    | some page' =>
      have := turnsLeft_pageStep hstep
      exact ih page' (by omega) (hP page page' h hstep)

end

/-! ## A whole page -/

section
variable {order : List TableName} {start db : ProjectDb N} {header : JsString} {pre : List JsString}
  {state : ExportCursorState} {writer : PageWriter} {maxRows maxBytes : Nat}

/-- What was emitted under the cursor, with the marks and the bound it carries. -/
def Under (numbers : Numbers N) (order : List TableName) (start db : ProjectDb N) (header : JsString) (marks : ExportMarks)
    (exportedSeq : Nat) (lines : List JsString) (state : ExportCursorState) : Prop :=
  (∃ passed current, Progress numbers order start db header lines state passed current) ∧
    state.marks = marks ∧ state.exportedSeq = exportedSeq

/-- The lines of a whole export. -/
structure Exported (numbers : Numbers N) (order : List TableName) (start db : ProjectDb N) (header : JsString)
    (marks : ExportMarks) (exportedSeq : Nat) (tables : List (TableRows N)) (trailer : SnapshotTrailer N)
    (lines : List JsString) : Prop where
  lines_eq : lines = header :: tables.flatMap (tableLines numbers start) ++ [lineText numbers (.trailer trailer)]
  names : tables.map TableRows.name = order
  counts : trailer.rows.entries = tables.map fun t => (tableText t.name, numbers.ofNat t.rows.length)
  chainHeadSeq : trailer.chainHeadSeq = numbers.ofNat marks.chainHeadSeq
  chainHeadHashHex : trailer.chainHeadHashHex = marks.chainHeadHashHex
  auditMaxSeq : trailer.auditMaxSeq = numbers.ofNat exportedSeq
  auditHeadHashHex : trailer.auditHeadHashHex = auditHeadHashAt numbers db exportedSeq
  whole : ∀ t ∈ tables, isKept t.name = true →
    exportedRows start exportedSeq t.name <+: t.rows ∧ t.rows <+: exportedRows db exportedSeq t.name

theorem pageLoop_under {marks : ExportMarks} {exportedSeq : Nat} (hnodup : order.Nodup)
    (hgrown : Grown exportedSeq start db)
    (h : Under numbers order start db header marks exportedSeq (pre ++ writer.lines) state)
    (hblank : Blank ⟨state, writer, 0⟩) :
    let page := pageLoop numbers db order maxRows maxBytes (pageFuel order maxRows) ⟨state, writer, 0⟩
    Under numbers order start db header marks exportedSeq (pre ++ page.writer.lines) page.state ∧ Blank page ∧
      (page.state.table < order.length → maxBytes ≤ page.writer.bytes ∨ maxRows ≤ page.emitted) := by
  intro page
  have hturns : turnsLeft order maxRows ⟨state, writer, 0⟩ ≤ pageFuel order maxRows := by
    unfold turnsLeft pageFuel
    dsimp only
    omega
  have hspec := @pageLoop_spec N numbers order db maxRows maxBytes
    (fun page => Under numbers order start db header marks exportedSeq (pre ++ page.writer.lines) page.state ∧ Blank page)
    ?_ _ _ hturns ⟨h, hblank⟩
  · refine ⟨hspec.1.1, hspec.1.2, fun hlt => ?_⟩
    have hend := hspec.2
    unfold pageStep at hend
    rw [List.getElem?_eq_getElem hlt] at hend
    dsimp only at hend
    split_ifs at hend with hbound
    simpa using hbound
  · rintro page page' ⟨⟨⟨passed, current, hprogress⟩, hmarks, hseq⟩, hblank⟩ hstep
    obtain ⟨hmarks', hseq'⟩ := pageStep_keeps hstep
    exact ⟨⟨hprogress.step hnodup (hseq ▸ hgrown) hstep, hmarks'.trans hmarks, hseq'.trans hseq⟩,
      pageStep_blank hstep hblank⟩

theorem Progress.ended {lines : List JsString} {passed : List (TableRows N)} {current : Option (TableRows N)}
    (h : Progress numbers order start db header lines state passed current) (hend : order.length ≤ state.table) :
    current = none ∧ passed.map TableRows.name = order := by
  have hlength := congrArg List.length h.names
  have htable := h.table_le
  have hpassed := h.passed_length
  cases current with
  | none =>
    refine ⟨rfl, ?_⟩
    have hnames := h.names
    have hstarted : state.started = false := h.started.symm
    rw [hstarted, Option.toList_none, List.append_nil] at hnames
    rw [hnames]
    exact List.take_of_length_le (by simpa using hend)
  | some t =>
    simp only [Option.toList_some, List.length_map, List.length_append, List.length_singleton, List.length_take] at hlength
    omega

theorem openCursor_blank (numbers : Numbers N) (db : ProjectDb N) (input : ExportPageInput) (marks : ExportMarks) :
    Blank ⟨(openCursor numbers db input marks ⟨[], 0⟩).1, (openCursor numbers db input marks ⟨[], 0⟩).2, 0⟩ := by
  unfold openCursor Blank
  split
  · exact fun _ => ⟨rfl, rfl⟩
  · intro hnil
    simp [PageWriter.emit] at hnil

theorem exportSnapshotPage_spec {input : ExportPageInput} {page : ExportPage} {marks : ExportMarks} {exportedSeq : Nat}
    (h : exportSnapshotPage numbers db input = some page) (hnodup : (snapshotTableOrder input.tables).Nodup)
    (hrows : 0 < input.maxRows) (hbytes : 0 < input.maxBytes) (hgrown : Grown exportedSeq start db)
    (hunder : Under numbers (snapshotTableOrder input.tables) start db header marks exportedSeq
      (pre ++ (openCursor numbers db input (marksOf numbers db) ⟨[], 0⟩).2.lines)
      (openCursor numbers db input (marksOf numbers db) ⟨[], 0⟩).1) :
    page.lines ≠ [] ∧
      (∀ cursor, page.next = some cursor →
        Under numbers (snapshotTableOrder input.tables) start db header marks exportedSeq (pre ++ page.lines) cursor) ∧
      (page.next = none → ∃ tables trailer, Exported numbers (snapshotTableOrder input.tables) start db header marks
        exportedSeq tables trailer (pre ++ page.lines)) := by
  unfold exportSnapshotPage at h
  dsimp only at h
  split at h
  · cases h
  rcases hopen : openCursor numbers db input (marksOf numbers db) ⟨[], 0⟩ with ⟨state, writer⟩
  have hblank := openCursor_blank numbers db input (marksOf numbers db)
  rw [hopen] at h hunder hblank
  dsimp only at h hunder hblank
  obtain ⟨hafter, hnone, hbound⟩ := @pageLoop_under N numbers (snapshotTableOrder input.tables) start db header pre state
    writer input.maxRows input.maxBytes marks exportedSeq hnodup hgrown hunder hblank
  generalize hpage : pageLoop numbers db (snapshotTableOrder input.tables) input.maxRows input.maxBytes
    (pageFuel (snapshotTableOrder input.tables) input.maxRows) ⟨state, writer, 0⟩ = last at *
  obtain ⟨⟨passed, current, hprogress⟩, hmarks, hseq⟩ := hafter
  split_ifs at h with hmore
  · obtain rfl := Option.some.inj h
    refine ⟨fun hnil => ?_, fun cursor hcursor => ?_, fun hnext => by cases hnext⟩
    · obtain ⟨hzero, hcount⟩ := hnone hnil
      simp only [Bool.or_eq_true, decide_eq_true_eq] at hmore
      rcases hmore with hlt | hle
      · rcases hbound hlt with hle | hle <;> omega
      · omega
    · obtain rfl := Option.some.inj hcursor
      exact ⟨⟨passed, current, hprogress⟩, hmarks, hseq⟩
  · obtain rfl := Option.some.inj h
    refine ⟨by simp [PageWriter.emit], fun cursor hcursor => (by cases hcursor), fun _ => ?_⟩
    simp only [Bool.or_eq_true, decide_eq_true_eq, not_or, Nat.not_lt] at hmore
    obtain ⟨rfl, hnames⟩ := hprogress.ended hmore.1
    have hcounts := hprogress.counts
    have hlines := hprogress.lines_eq
    simp only [Option.toList_none, List.append_nil] at hcounts hlines
    refine ⟨passed, trailerOf numbers db last.state input.databaseSize, ?_, hnames, ?_, ?_, ?_, ?_, ?_, ?_⟩
    · show pre ++ (last.writer.lines ++ [_]) = _
      rw [← List.append_assoc, hlines]
    · show (last.state.rows.entries.map fun e => (e.1, numbers.ofNat e.2)) = _
      rw [hcounts, List.map_map]
      rfl
    · exact congrArg (fun m => numbers.ofNat m.chainHeadSeq) hmarks
    · exact congrArg (fun m => m.chainHeadHashHex) hmarks
    · exact congrArg numbers.ofNat hseq
    · exact congrArg (auditHeadHashAt numbers db) hseq
    · rw [← hseq]
      exact hprogress.whole

end

end Maruhi.Snapshot
