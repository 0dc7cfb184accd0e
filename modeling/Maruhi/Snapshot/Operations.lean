import Maruhi.Snapshot.Paging

/-!
# What runs between two pages

Writes, reads that append to the log, the column of heads, a mirror's swap of the tables, a schema upgrade. Where the
counter and the schema stand still, an export's rows do.
-/

open Text JsonText

namespace Maruhi.Snapshot

variable {N : Type} {numbers : Numbers N}

/-- The log and its heads are only appended to. -/
def Change.keepsLog (db : ProjectDb N) (change : Change N) : Bool :=
  if isAuditSeqTable change.table then
    match change with
    | .insert name row => (db.tables name).maxRowid < row.rowid
    | _ => false
  else true

inductive Operation (N : Type)
  | writes (changes : List (Change N))
  | replaces (changes : List (Change N))
  | upgrade (after : ProjectDb N)

/-- A write of rows, one by one. -/
def writeRow (db : ProjectDb N) (change : Change N) : Option (ProjectDb N) :=
  if change.keepsLog db then some (change.apply db) else none

/-- None where the operation is no such operation: a statement that rewrites the log belongs to a swap of the tables,
which moves the counter, and an upgrade raises the version. -/
def Operation.apply (db : ProjectDb N) : Operation N → Option (ProjectDb N)
  | .writes changes => changes.foldlM writeRow db
  | .replaces changes =>
    let after := changes.foldl Change.apply db
    if db.mutationSeq < after.mutationSeq then some after else none
  | .upgrade after => if db.schemaVersion < after.schemaVersion then some after else none

def applyAll (db : ProjectDb N) (operations : List (Operation N)) : Option (ProjectDb N) :=
  operations.foldlM Operation.apply db

/-- Whether some change, at its moment, changes a row of a tracked table. -/
def touchesTracked : ProjectDb N → List (Change N) → Bool
  | _, [] => false
  | db, change :: rest =>
    isMutationTracked change.table && change.applies db || touchesTracked (change.apply db) rest

def Operation.touches (db : ProjectDb N) : Operation N → Bool
  | .writes changes => touchesTracked db changes
  | .replaces changes => touchesTracked db changes
  | .upgrade _ => true

/-! ## What stands still -/

/-- `later` shows an export the rows that `earlier` did, and perhaps more heads. -/
structure Still (exportedSeq : Nat) (earlier later : ProjectDb N) : Prop where
  columns : ∀ name, (later.tables name).columns = (earlier.tables name).columns
  tracked : ∀ name, isMutationTracked name = true → later.tables name = earlier.tables name
  log : exportedRows later exportedSeq .auditEvents = exportedRows earlier exportedSeq .auditEvents
  heads : exportedRows earlier exportedSeq .auditHeadHashes <+: exportedRows later exportedSeq .auditHeadHashes
  logMax : lastAuditSeq earlier ≤ lastAuditSeq later
  headMax : (earlier.tables .auditHeadHashes).maxRowid ≤ (later.tables .auditHeadHashes).maxRowid
  headsFull : exportedSeq ≤ (earlier.tables .auditHeadHashes).maxRowid →
    exportedRows later exportedSeq .auditHeadHashes = exportedRows earlier exportedSeq .auditHeadHashes

theorem Still.refl (exportedSeq : Nat) (db : ProjectDb N) : Still exportedSeq db db :=
  ⟨fun _ => rfl, fun _ _ => rfl, rfl, List.prefix_rfl, Nat.le_refl _, Nat.le_refl _, fun _ => rfl⟩

theorem Still.trans {exportedSeq : Nat} {a b c : ProjectDb N} (h : Still exportedSeq a b) (h' : Still exportedSeq b c) :
    Still exportedSeq a c where
  columns name := (h'.columns name).trans (h.columns name)
  tracked name hname := (h'.tracked name hname).trans (h.tracked name hname)
  log := h'.log.trans h.log
  heads := h.heads.trans h'.heads
  logMax := h.logMax.trans h'.logMax
  headMax := h.headMax.trans h'.headMax
  headsFull hfull := (h'.headsFull (hfull.trans h.headMax)).trans (h.headsFull hfull)

theorem exportedRows_tracked {db : ProjectDb N} {exportedSeq : Nat} {name : TableName}
    (h : isMutationTracked name = true) : exportedRows db exportedSeq name = (db.tables name).rows := by
  refine if_neg ?_
  cases name <;> first | exact absurd h (by decide) | decide

theorem Still.grown {exportedSeq : Nat} {earlier later : ProjectDb N} (h : Still exportedSeq earlier later) :
    Grown exportedSeq earlier later := by
  refine ⟨h.columns, fun name hname => ?_⟩
  unfold isKept isAuditSeqTable at hname
  simp only [Bool.or_eq_true, decide_eq_true_eq] at hname
  rcases hname with hname | rfl | rfl
  · have hrows : exportedRows earlier exportedSeq name = exportedRows later exportedSeq name := by
      rw [exportedRows_tracked hname, exportedRows_tracked hname, h.tracked name hname]
    exact hrows ▸ List.prefix_rfl
  · exact h.log ▸ List.prefix_rfl
  · exact h.heads

theorem Change.apply_columns (db : ProjectDb N) (change : Change N) (name : TableName) :
    ((change.apply db).tables name).columns = (db.tables name).columns := by
  by_cases hname : name = change.table
  · subst hname
    unfold Change.apply
    dsimp only
    have hwritten : (change.written (db.tables change.table)).columns = (db.tables change.table).columns := by
      cases change <;> rfl
    split_ifs
    · rw [ProjectDb.bump_tables, ProjectDb.setTable_self, hwritten]
    · rw [ProjectDb.setTable_self, hwritten]
    · rfl
  · rw [change.apply_tables_ne db hname]

theorem Change.apply_append {db : ProjectDb N} {name : TableName} {row : Row N}
    (h : (db.tables name).maxRowid < row.rowid) :
    ((Change.insert name row).apply db).tables name = (db.tables name).put row ∧
      ((db.tables name).put row).rows = (db.tables name).rows ++ [row] := by
  have hbefore : ∀ other ∈ (db.tables name).rows, other.rowid < row.rowid := fun other hother =>
    Nat.lt_of_le_of_lt (Table.rowid_le_maxRowid hother) h
  have happlies : (Change.insert name row).applies db = true := by
    unfold Change.applies Table.get?
    rw [Option.isNone_iff_eq_none, List.find?_eq_none]
    intro other hother
    have := hbefore other hother
    simp only [decide_eq_true_eq]
    omega
  refine ⟨?_, Table.rows_put hbefore⟩
  unfold Change.apply
  rw [if_pos happlies]
  dsimp only [Change.table, Change.written]
  split_ifs
  · rw [ProjectDb.bump_tables, ProjectDb.setTable_self]
  · rw [ProjectDb.setTable_self]

theorem maxRowid_put {table : Table N} {row : Row N} (h : (table.put row).rows = table.rows ++ [row]) :
    (table.put row).maxRowid = row.rowid := by
  unfold Table.maxRowid
  rw [h]
  simp

theorem Change.still {db : ProjectDb N} {change : Change N} {exportedSeq : Nat} (hseq : exportedSeq ≤ lastAuditSeq db)
    (hkeeps : change.keepsLog db = true) (hquiet : (change.apply db).mutationSeq = db.mutationSeq) :
    Still exportedSeq db (change.apply db) := by
  -- a log table is the same table, or has one row more at its end
  have hlog : ∀ name, isAuditSeqTable name = true → (change.apply db).tables name = db.tables name ∨
      ∃ row, (db.tables name).maxRowid < row.rowid ∧ ((change.apply db).tables name).rows = (db.tables name).rows ++ [row] ∧
        ((change.apply db).tables name).maxRowid = row.rowid := by
    intro name hname
    by_cases hne : name = change.table
    · subst hne
      unfold Change.keepsLog at hkeeps
      rw [if_pos hname] at hkeeps
      cases change with
      | insert name row =>
        have hlt : (db.tables name).maxRowid < row.rowid := by simpa using hkeeps
        obtain ⟨htable, hrows⟩ := Change.apply_append hlt
        refine Or.inr ⟨row, hlt, ?_, ?_⟩
        · exact (congrArg Table.rows htable).trans hrows
        · exact (congrArg Table.maxRowid htable).trans (maxRowid_put hrows)
      | update name rowid row => cases hkeeps
      | delete name rowid => cases hkeeps
    · exact Or.inl (change.apply_tables_ne db hne)
  have hrows : ∀ name, isAuditSeqTable name = true →
      exportedRows db exportedSeq name <+: exportedRows (change.apply db) exportedSeq name ∧
        (db.tables name).maxRowid ≤ ((change.apply db).tables name).maxRowid ∧
        (exportedSeq ≤ (db.tables name).maxRowid →
          exportedRows (change.apply db) exportedSeq name = exportedRows db exportedSeq name) := by
    intro name hname
    unfold exportedRows
    rw [if_pos hname, if_pos hname]
    rcases hlog name hname with hsame | ⟨row, hlt, happended, hmax⟩
    · rw [hsame]
      exact ⟨List.prefix_rfl, Nat.le_refl _, fun _ => rfl⟩
    · rw [happended, hmax, List.filter_append]
      refine ⟨List.prefix_append _ _, Nat.le_of_lt hlt, fun hle => ?_⟩
      have : ¬ row.rowid ≤ exportedSeq := by omega
      simp [this]
  exact {
    columns := change.apply_columns db
    tracked := fun name hname => Change.tables_of_quiet hquiet hname
    log := (hrows .auditEvents rfl).2.2 hseq
    heads := (hrows .auditHeadHashes rfl).1
    logMax := (hrows .auditEvents rfl).2.1
    headMax := (hrows .auditHeadHashes rfl).2.1
    headsFull := (hrows .auditHeadHashes rfl).2.2 }

theorem Change.mutationSeq_le (db : ProjectDb N) (change : Change N) :
    db.mutationSeq ≤ (change.apply db).mutationSeq := by
  rw [Change.apply_mutationSeq]
  exact Nat.le_add_right _ _

/-! ## Runs of writes -/

theorem writes_cons {db after : ProjectDb N} {change : Change N} {rest : List (Change N)}
    (h : (change :: rest).foldlM writeRow db = some after) :
    change.keepsLog db = true ∧ rest.foldlM writeRow (change.apply db) = some after := by
  simp only [List.foldlM_cons, writeRow, Option.bind_eq_bind] at h
  split_ifs at h with hkeeps
  · exact ⟨hkeeps, h⟩
  · cases h

theorem writes_schemaVersion {db after : ProjectDb N} {changes : List (Change N)}
    (h : changes.foldlM writeRow db = some after) : after.schemaVersion = db.schemaVersion := by
  induction changes generalizing db with
  | nil =>
    obtain rfl : db = after := Option.some.inj h
    rfl
  | cons change rest ih =>
    rw [ih (writes_cons h).2, Change.apply_schemaVersion]

theorem writes_mutationSeq {db after : ProjectDb N} {changes : List (Change N)}
    (h : changes.foldlM writeRow db = some after) :
    db.mutationSeq ≤ after.mutationSeq ∧ (touchesTracked db changes = true → db.mutationSeq < after.mutationSeq) := by
  induction changes generalizing db with
  | nil =>
    obtain rfl : db = after := Option.some.inj h
    exact ⟨Nat.le_refl _, fun htouches => by cases htouches⟩
  | cons change rest ih =>
    obtain ⟨hle, hlt⟩ := ih (writes_cons h).2
    have hfirst := change.mutationSeq_le db
    refine ⟨hfirst.trans hle, fun htouches => ?_⟩
    unfold touchesTracked at htouches
    simp only [Bool.or_eq_true, Bool.and_eq_true] at htouches
    rcases htouches with ⟨htracked, happlies⟩ | hrest
    · have hstep := change.apply_mutationSeq db
      rw [happlies, change.fires_of_tracked db htracked] at hstep
      simp only [Bool.and_self, if_pos] at hstep
      omega
    · exact Nat.lt_of_le_of_lt hfirst (hlt hrest)

theorem writes_still {db after : ProjectDb N} {changes : List (Change N)} {exportedSeq : Nat}
    (hseq : exportedSeq ≤ lastAuditSeq db) (h : changes.foldlM writeRow db = some after)
    (hquiet : after.mutationSeq = db.mutationSeq) : Still exportedSeq db after := by
  induction changes generalizing db with
  | nil =>
    obtain rfl : db = after := Option.some.inj h
    exact Still.refl _ _
  | cons change rest ih =>
    obtain ⟨hkeeps, hrest⟩ := writes_cons h
    have hfirst := change.mutationSeq_le db
    have hle := (writes_mutationSeq hrest).1
    have hstill := Change.still hseq hkeeps (by omega)
    exact hstill.trans (ih (hseq.trans hstill.logMax) hrest (by omega))

/-! ## Runs of operations -/

theorem applyAll_cons {db after : ProjectDb N} {operation : Operation N} {rest : List (Operation N)}
    (h : applyAll db (operation :: rest) = some after) :
    ∃ middle, operation.apply db = some middle ∧ applyAll middle rest = some after := by
  simp only [applyAll, List.foldlM_cons, Option.bind_eq_bind, Option.bind_eq_some_iff] at h
  exact h

theorem foldl_schemaVersion (db : ProjectDb N) (changes : List (Change N)) :
    (changes.foldl Change.apply db).schemaVersion = db.schemaVersion := by
  induction changes generalizing db with
  | nil => rfl
  | cons change rest ih => rw [List.foldl_cons, ih, Change.apply_schemaVersion]

theorem Operation.apply_cases {db after : ProjectDb N} {operation : Operation N} (h : operation.apply db = some after) :
    db.schemaVersion < after.schemaVersion ∨
      after.schemaVersion = db.schemaVersion ∧ db.mutationSeq < after.mutationSeq ∨
      after.schemaVersion = db.schemaVersion ∧ after.mutationSeq = db.mutationSeq ∧ operation.touches db = false ∧
        ∀ exportedSeq, exportedSeq ≤ lastAuditSeq db → Still exportedSeq db after := by
  cases operation with
  | writes changes =>
    have hversion := writes_schemaVersion h
    obtain ⟨hle, hlt⟩ := writes_mutationSeq h
    rcases Nat.lt_or_ge db.mutationSeq after.mutationSeq with hmoved | hsame
    · exact Or.inr (Or.inl ⟨hversion, hmoved⟩)
    · refine Or.inr (Or.inr ⟨hversion, by omega, ?_, fun exportedSeq hseq => writes_still hseq h (by omega)⟩)
      show touchesTracked db changes = false
      by_contra htouches
      rw [Bool.not_eq_false] at htouches
      have := hlt htouches
      omega
  | replaces changes =>
    simp only [Operation.apply, Option.ite_none_right_eq_some, Option.some.injEq] at h
    obtain ⟨hlt, rfl⟩ := h
    exact Or.inr (Or.inl ⟨foldl_schemaVersion db changes, hlt⟩)
  | upgrade upgraded =>
    simp only [Operation.apply, Option.ite_none_right_eq_some, Option.some.injEq] at h
    obtain ⟨hlt, rfl⟩ := h
    exact Or.inl hlt

/-- Where the version and the counter are what they were, nothing an export reads has changed. -/
theorem applyAll_still {db after : ProjectDb N} {operations : List (Operation N)}
    (h : applyAll db operations = some after) :
    db.schemaVersion ≤ after.schemaVersion ∧
      (after.schemaVersion = db.schemaVersion → db.mutationSeq ≤ after.mutationSeq) ∧
      (after.schemaVersion = db.schemaVersion → after.mutationSeq = db.mutationSeq →
        ∀ exportedSeq, exportedSeq ≤ lastAuditSeq db → Still exportedSeq db after) := by
  induction operations generalizing db with
  | nil =>
    obtain rfl : db = after := Option.some.inj h
    exact ⟨Nat.le_refl _, fun _ => Nat.le_refl _, fun _ _ _ _ => Still.refl _ _⟩
  | cons operation rest ih =>
    obtain ⟨middle, hfirst, hrest⟩ := applyAll_cons h
    obtain ⟨hversion, hcounter, hstill⟩ := ih hrest
    rcases Operation.apply_cases hfirst with hup | ⟨hsame, hup⟩ | ⟨hsame, hcount, -, hstands⟩
    · refine ⟨by omega, fun heq => by omega, fun heq => by omega⟩
    · refine ⟨by omega, fun heq => ?_, fun heq hquiet => ?_⟩
      · have := hcounter (by omega)
        omega
      · have := hcounter (by omega)
        omega
    · refine ⟨by omega, fun heq => ?_, fun heq hquiet exportedSeq hseq => ?_⟩
      · have := hcounter (by omega)
        omega
      · have hfirst := hstands exportedSeq hseq
        exact hfirst.trans (hstill (by omega) (by omega) exportedSeq (hseq.trans hfirst.logMax))

/-- A change of a tracked table, or an upgrade, is seen afterwards. -/
theorem applyAll_touched {db middle touched after : ProjectDb N} {before rest : List (Operation N)}
    {operation : Operation N} (hbefore : applyAll db before = some middle) (hfirst : operation.apply middle = some touched)
    (hrest : applyAll touched rest = some after) (htouches : operation.touches middle = true) :
    ¬ (after.schemaVersion = db.schemaVersion ∧ after.mutationSeq = db.mutationSeq) := by
  rintro ⟨hversion, hcounter⟩
  obtain ⟨hv1, hc1, -⟩ := applyAll_still hbefore
  obtain ⟨hv3, hc3, -⟩ := applyAll_still hrest
  rcases Operation.apply_cases hfirst with hup | ⟨hsame, hup⟩ | ⟨-, -, hquiet, -⟩
  · omega
  · have := hc1 (by omega)
    have := hc3 (by omega)
    omega
  · rw [htouches] at hquiet
    cases hquiet

end Maruhi.Snapshot
