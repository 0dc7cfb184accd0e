import Maruhi.Audit.Reconcile

/-!
# An honest server's log (`checkpoint-accept.ts`, `audit-store.ts`)

The server appends rows, extends its column when a head is read, and accepts checkpoints whose head it judges by
that column. The client reconciles at any later time.
-/

open Text JsonText

namespace Maruhi.Audit
open Chain

/-! ## The server -/

/-- Rows that mirror no checkpoint. -/
structure DataRows (N : Type) where
  events : List (JsString × AuditEventInput N)
  not_mirror : ∀ event ∈ events, event.2.event ≠ chainCheckpointed

/-- An entry that is no checkpoint, and the rows its acceptance writes. -/
structure OtherEntry (N : Type) where
  entry : ChainEntry
  not_checkpoint : checkpointHead? entry = none
  rows : DataRows N
  mirrored : rows.events ≠ []

/-- A checkpoint and its mirror row. -/
structure CheckpointEntry (N : Type) where
  entry : ChainEntry
  head : JsString
  checkpoint : checkpointHead? entry = some head
  mirror : JsString × AuditEventInput N
  mirror_event : mirror.2.event = chainCheckpointed
  mirror_seq : mirror.2.chainSeq = some entry.seq

/-- `admits` is the storage guard's answer where it is asked. -/
inductive LogEvent (N : Type)
  | append (rows : DataRows N)
  | readHead (admits : Bool)
  | acceptEntry (entry : OtherEntry N)
  | acceptCheckpoint (admits : Bool) (before : Option (OtherEntry N)) (checkpoint : CheckpointEntry N) (after : DataRows N)

structure LogState where
  chain : List ChainEntry
  tables : AuditTables

inductive AuditHeadRejection
  | storage
  | auditHeadNotReady
  | auditHeadUnknown
  | auditHeadStale
  deriving DecidableEq, Repr

section
variable {N : Type} (numerals : Numerals N) (crypto : Crypto) (maxChunks : Nat)

/-- The tables, which keep what was extended, and whether the head is accepted. -/
def ensureAuditHeadAcceptable (admits : Bool) (auditHeadHashHex : JsString) (tables : AuditTables) :
    AuditTables × Except AuditHeadRejection Unit :=
  if auditHeadHashHex = [] then (tables, .ok ())
  else if headColumnBehind tables && !admits then (tables, .error .storage)
  else
    let (tables', outcome) := extendHeadHashes crypto maxChunks tables
    if outcome ≠ .current then (tables', .error .auditHeadNotReady)
    else match headPosition tables' auditHeadHashHex with
    | none => (tables', .error .auditHeadUnknown)
    | some position =>
      match latestCheckpointMirrorSeq tables' with
      | none => (tables', .ok ())
      | some floor => (tables', if position < floor then .error .auditHeadStale else .ok ())

/-- `auditHeadProgram`, for an admin: the tables, and the head it declares. -/
def auditHeadProgram (admits : Bool) (s : LogState) : AuditTables × Option JsString :=
  if s.chain.isEmpty then (s.tables, none)
  else if headColumnBehind s.tables && !admits then (s.tables, none)
  else
    let (tables', outcome) := extendHeadHashes crypto maxChunks s.tables
    (tables', if outcome = .current then some (currentHeadHex tables') else none)

/-- The entries and rows of an acceptance, written together or not at all. -/
def commitEntries (s : LogState) (entries : List ChainEntry) (events : List (JsString × AuditEventInput N)) : LogState :=
  if entries.map (·.seq) ≠ List.range' (s.chain.length + 1) entries.length then s
  else match appendMany numerals s.tables.rows events with
  | none => s
  | some rows => ⟨s.chain ++ entries, { s.tables with rows := rows }⟩

def LogState.step (s : LogState) : LogEvent N → LogState
  | .append rows => commitEntries numerals s [] rows.events
  | .readHead admits => { s with tables := (auditHeadProgram crypto maxChunks admits s).1 }
  | .acceptEntry entry => commitEntries numerals s [entry.entry] entry.rows.events
  | .acceptCheckpoint admits before checkpoint after =>
    match ensureAuditHeadAcceptable crypto maxChunks admits checkpoint.head s.tables with
    | (tables, .error _) => { s with tables := tables }
    | (tables, .ok ()) =>
      commitEntries numerals { s with tables := tables } (before.toList.map (·.entry) ++ [checkpoint.entry])
        (before.toList.flatMap (·.rows.events) ++ [checkpoint.mirror] ++ after.events)

def LogState.run (s : LogState) (events : List (LogEvent N)) : LogState :=
  events.foldl (LogState.step numerals crypto maxChunks) s

def LogState.start : LogState := ⟨[], ⟨[], []⟩⟩

end

/-! ## Checkpoints in their place -/

def mirrorsOf (rows : List AuditHeadRow) (chainSeq : Nat) : List AuditHeadRow :=
  rows.filter fun row => row.event = chainCheckpointed && row.chainSeq = some chainSeq

/-- The one mirror row of a checkpoint. -/
def MirroredAt (rows : List AuditHeadRow) (chainSeq seq : Nat) : Prop :=
  (mirrorsOf rows chainSeq).map (fun row => row.seq) = [seq]

/-- Every checkpoint has its mirror row, and what it notarizes stands at or after the mirror of the checkpoint before
it, not before what an earlier one notarized, and before its own mirror. `prev` is the last checkpoint and its mirror,
`last` the last one that notarizes and its position. -/
inductive Checkpointed (rows : List AuditHeadRow) (positions : JsString → Option Nat) :
    List ChainEntry → Option (Nat × Nat) → Option (Nat × Nat) → Prop
  | nil : Checkpointed rows positions [] none none
  | other {entries : List ChainEntry} {prev last : Option (Nat × Nat)} {entry : ChainEntry}
      (h : Checkpointed rows positions entries prev last) (hentry : checkpointHead? entry = none) :
      Checkpointed rows positions (entries ++ [entry]) prev last
  | silent {entries : List ChainEntry} {prev last : Option (Nat × Nat)} {entry : ChainEntry} {seq : Nat}
      (h : Checkpointed rows positions entries prev last) (hentry : checkpointHead? entry = some [])
      (hmirror : MirroredAt rows entry.seq seq) (hprev : ∀ p ∈ prev, p.2 < seq) :
      Checkpointed rows positions (entries ++ [entry]) (some (entry.seq, seq)) last
  | notarizing {entries : List ChainEntry} {prev last : Option (Nat × Nat)} {entry : ChainEntry} {seq position : Nat}
      {head : JsString} (h : Checkpointed rows positions entries prev last)
      (hentry : checkpointHead? entry = some head) (hhead : head ≠ []) (hmirror : MirroredAt rows entry.seq seq)
      (hposition : positions head = some position) (hlast : ∀ l ∈ last, l.2 ≤ position)
      (hprev : ∀ p ∈ prev, p.2 ≤ position) (hlt : position < seq) :
      Checkpointed rows positions (entries ++ [entry]) (some (entry.seq, seq)) (some (entry.seq, position))

section
variable {rows rows' : List AuditHeadRow} {positions positions' : JsString → Option Nat} {entries : List ChainEntry}
  {prev last : Option (Nat × Nat)}

theorem Checkpointed.last_lt (h : Checkpointed rows positions entries prev last) :
    ∀ l ∈ last, ∃ p ∈ prev, l.2 < p.2 := by
  induction h with
  | nil => simp
  | other _ _ ih => exact ih
  | silent _ _ _ hprev ih =>
    intro l hl
    obtain ⟨p, hp, hlt⟩ := ih l hl
    exact ⟨_, rfl, hlt.trans (hprev p hp)⟩
  | notarizing _ _ _ _ _ _ _ hlt _ =>
    intro l hl
    cases hl
    exact ⟨_, rfl, hlt⟩

theorem Checkpointed.mono (h : Checkpointed rows positions entries prev last)
    (hrows : ∀ entry ∈ entries, ∀ seq, MirroredAt rows entry.seq seq → MirroredAt rows' entry.seq seq)
    (hpositions : ∀ head position, positions head = some position → positions' head = some position) :
    Checkpointed rows' positions' entries prev last := by
  induction h with
  | nil => exact .nil
  | other _ hentry ih => exact .other (ih fun e he => hrows e (by simp [he])) hentry
  | silent _ hentry hmirror hprev ih =>
    exact .silent (ih fun e he => hrows e (by simp [he])) hentry (hrows _ (by simp) _ hmirror) hprev
  | notarizing _ hentry hhead hmirror hposition hlast hprev hlt ih =>
    exact .notarizing (ih fun e he => hrows e (by simp [he])) hentry hhead (hrows _ (by simp) _ hmirror)
      (hpositions _ _ hposition) hlast hprev hlt

theorem Checkpointed.scan {column : OrderedMap JsString Nat} {mirrors : OrderedMap Nat (List Nat)}
    (h : Checkpointed rows column.get? entries prev last)
    (hmirrors : ∀ chainSeq seq, MirroredAt rows chainSeq seq → (mirrors.get? chainSeq).getD [] = [seq]) :
    ∃ n, entries.foldl (scanEntry column mirrors) ⟨[], 0, none, none⟩ = ⟨[], n, prev.map Prod.fst, last⟩ ∧
      ∀ p ∈ prev, (mirrors.get? p.1).getD [] = [p.2] := by
  induction h with
  | nil => exact ⟨0, rfl, by simp⟩
  | other _ hentry ih =>
    obtain ⟨n, hfold, hprev⟩ := ih
    refine ⟨n, ?_, hprev⟩
    rw [List.foldl_append, hfold, List.foldl_cons, List.foldl_nil, scanEntry, hentry]
  | silent _ hentry hmirror _ ih =>
    obtain ⟨n, hfold, -⟩ := ih
    refine ⟨n, ?_, ?_⟩
    · rw [List.foldl_append, hfold, List.foldl_cons, List.foldl_nil, scanEntry, hentry]
      rfl
    · intro p hp
      cases hp
      exact hmirrors _ _ hmirror
  | @notarizing entries prev last entry seq position head hbefore hentry hhead hmirror hposition hlast hprev hlt ih =>
    obtain ⟨n, hfold, hmirrorPrev⟩ := ih
    refine ⟨n + 1, ?_, ?_⟩
    · have hregression : regressionViolation ⟨entry.seq, position, prev.map Prod.fst, last⟩ = [] := by
        unfold regressionViolation
        cases last with
        | none => rfl
        | some l => exact if_pos (hlast l rfl)
      have hfloor : floorViolation ⟨entry.seq, position, prev.map Prod.fst, last⟩ mirrors = [] := by
        unfold floorViolation
        cases prev with
        | none => rfl
        | some p =>
          have hle := hprev p rfl
          simp only [Option.map_some]
          rw [hmirrorPrev p rfl]
          exact if_neg (by omega)
      rw [List.foldl_append, hfold, List.foldl_cons, List.foldl_nil, scanEntry, hentry]
      simp only [if_neg hhead, hposition, hregression, hfloor, List.append_nil, Option.map_some]
    · intro p hp
      cases hp
      exact hmirrors _ _ hmirror

end

/-! ## Rows appended -/

/-- What a row keeps of its event. -/
def RowOf {N : Type} (numerals : Numerals N) (event : JsString × AuditEventInput N) (row : AuditHeadRow) : Prop :=
  row.event = event.2.event ∧ row.chainSeq = event.2.chainSeq ∧ row.payloadText = storedPayload numerals event.2

section
variable {N : Type} {numerals : Numerals N}

theorem foldl_appendRow (events : List (JsString × AuditEventInput N)) {rows : List AuditHeadRow} (h : Numbered rows) :
    ∃ added, events.foldl (appendRow numerals) rows = rows ++ added ∧ Numbered (rows ++ added) ∧
      List.Forall₂ (RowOf numerals) events added := by
  induction events generalizing rows with
  | nil => exact ⟨[], by simp, by simpa using h, .nil⟩
  | cons event rest ih =>
    have hnumbered := @Numbered.append rows h (auditRow numerals (nextSeq rows) event.1 event.2) h.nextSeq
    obtain ⟨added, hfold, hnum, hrows⟩ := ih hnumbered
    rw [List.append_assoc, List.singleton_append] at hfold hnum
    exact ⟨_, hfold, hnum, .cons ⟨rfl, rfl, rfl⟩ hrows⟩

theorem appendMany_spec {events : List (JsString × AuditEventInput N)} {rows rows' : List AuditHeadRow}
    (h : Numbered rows) (happend : appendMany numerals rows events = some rows') :
    ∃ added, rows' = rows ++ added ∧ Numbered rows' ∧ List.Forall₂ (RowOf numerals) events added := by
  unfold appendMany at happend
  split_ifs at happend
  cases happend
  obtain ⟨added, hfold, hnum, hrows⟩ := foldl_appendRow events h
  exact ⟨added, hfold, hfold ▸ hnum, hrows⟩

theorem event_of_row {events : List (JsString × AuditEventInput N)} {added : List AuditHeadRow}
    (h : List.Forall₂ (RowOf numerals) events added) {row : AuditHeadRow} (hrow : row ∈ added) :
    ∃ event ∈ events, RowOf numerals event row := by
  induction h with
  | nil => cases hrow
  | cons hof _ ih =>
    rcases List.mem_cons.mp hrow with rfl | hrow
    · exact ⟨_, by simp, hof⟩
    · obtain ⟨event, hevent, hof⟩ := ih hrow
      exact ⟨event, by simp [hevent], hof⟩

theorem no_mirrors {events : List (JsString × AuditEventInput N)} {added : List AuditHeadRow}
    (h : List.Forall₂ (RowOf numerals) events added) (hevents : ∀ event ∈ events, event.2.event ≠ chainCheckpointed) :
    ∀ row ∈ added, row.event ≠ chainCheckpointed := by
  intro row hrow
  obtain ⟨event, hevent, hof⟩ := event_of_row h hrow
  rw [hof.1]
  exact hevents event hevent

theorem mirrorsOf_append (rows added : List AuditHeadRow) (chainSeq : Nat) :
    mirrorsOf (rows ++ added) chainSeq = mirrorsOf rows chainSeq ++ mirrorsOf added chainSeq := List.filter_append ..

theorem mirrorsOf_none {added : List AuditHeadRow} (h : ∀ row ∈ added, row.event ≠ chainCheckpointed) (chainSeq : Nat) :
    mirrorsOf added chainSeq = [] := by
  unfold mirrorsOf
  rw [List.filter_eq_nil_iff]
  intro row hrow
  simp [h row hrow]

theorem latest_append (tables : AuditTables) {added : List AuditHeadRow}
    (h : ∀ row ∈ added, row.event ≠ chainCheckpointed) :
    latestCheckpointMirrorSeq { tables with rows := tables.rows ++ added } = latestCheckpointMirrorSeq tables := by
  have hnil : (added.filter fun row => decide (row.event = chainCheckpointed)) = [] := by
    rw [List.filter_eq_nil_iff]
    intro row hrow
    simp [h row hrow]
  unfold latestCheckpointMirrorSeq
  dsimp only
  rw [List.filter_append, hnil, List.append_nil]

theorem latest_mirror (tables : AuditTables) {row : AuditHeadRow} (hrow : row.event = chainCheckpointed)
    (hnumbered : Numbered (tables.rows ++ [row])) :
    latestCheckpointMirrorSeq { tables with rows := tables.rows ++ [row] } = some row.seq := by
  have hlast : row.seq = tables.rows.length + 1 := hnumbered tables.rows.length row (by simp)
  unfold latestCheckpointMirrorSeq
  dsimp only
  rw [List.max?_eq_some_iff]
  refine ⟨List.mem_map.mpr ⟨row, by simp [hrow], rfl⟩, fun seq hseq => ?_⟩
  obtain ⟨other, hother, rfl⟩ := List.mem_map.mp hseq
  have := (hnumbered.mem (List.mem_of_mem_filter hother)).2
  rw [List.length_append, List.length_singleton] at this
  omega

end

/-! ## Every step keeps it -/

/-- The log, the column and the chain of an honest server. -/
structure Sound {N : Type} (numerals : Numerals N) (crypto : Crypto) (s : LogState) : Prop where
  numbered : Numbered s.tables.rows
  column : ∃ k ≤ s.tables.rows.length, Chained crypto [] (s.tables.rows.take k) s.tables.heads
  seqs : s.chain.map (fun entry => entry.seq) = List.range' 1 s.chain.length
  mirrored : s.chain ≠ [] → s.tables.rows ≠ []
  bounded : ∀ row ∈ s.tables.rows, row.event = chainCheckpointed →
    ∃ chainSeq, row.chainSeq = some chainSeq ∧ chainSeq ≤ s.chain.length
  written : ∀ row ∈ s.tables.rows, ∃ event : AuditEventInput N, row.payloadText = storedPayload numerals event
  checkpoints : ∃ prev last, Checkpointed s.tables.rows (firstPosition s.tables.heads) s.chain prev last ∧
    latestCheckpointMirrorSeq s.tables = prev.map Prod.snd

/-- A later state: nothing of the chain, the rows and the positions of the heads is lost. -/
structure Extends (s s' : LogState) : Prop where
  chain : s.chain <+: s'.chain
  rows : s.tables.rows <+: s'.tables.rows
  mirrors : ∀ chainSeq ≤ s.chain.length, ∀ seq, MirroredAt s.tables.rows chainSeq seq →
    MirroredAt s'.tables.rows chainSeq seq
  heads : s.tables.heads <+: s'.tables.heads

theorem Extends.refl (s : LogState) : Extends s s :=
  ⟨List.prefix_rfl, List.prefix_rfl, fun _ _ _ h => h, List.prefix_rfl⟩

theorem Extends.trans {s s' s'' : LogState} (h : Extends s s') (h' : Extends s' s'') : Extends s s'' :=
  ⟨h.chain.trans h'.chain, h.rows.trans h'.rows,
    fun chainSeq hle seq hm => h'.mirrors chainSeq (hle.trans h.chain.length_le) seq (h.mirrors chainSeq hle seq hm),
    h.heads.trans h'.heads⟩

section
variable {N : Type} {numerals : Numerals N} {crypto : Crypto}

theorem Chained.seqs {head : JsString} {rows : List AuditHeadRow} {heads : List (Nat × JsString)}
    (h : Chained crypto head rows heads) : heads.map Prod.fst = rows.map fun row => row.seq := by
  induction h with
  | nil => rfl
  | cons _ _ ih => rw [List.map_cons, List.map_cons, ih]

theorem Chained.position_le {rows : List AuditHeadRow} {heads : List (Nat × JsString)} {k : Nat} (hrows : Numbered rows)
    (h : Chained crypto [] (rows.take k) heads) {head : JsString} {position : Nat}
    (hposition : firstPosition heads head = some position) : position ≤ rows.length := by
  obtain ⟨e, he, rfl⟩ := Option.map_eq_some_iff.mp hposition
  have hmem : e.1 ∈ heads.map Prod.fst := List.mem_map_of_mem (List.mem_of_find?_eq_some he)
  rw [h.seqs] at hmem
  obtain ⟨row, hrow, hseq⟩ := List.mem_map.mp hmem
  rw [← hseq]
  exact (hrows.mem (List.mem_of_mem_take hrow)).2

theorem Chained.tail {rows : List AuditHeadRow} {heads : List (Nat × JsString)} {k : Nat} (hrows : Numbered rows)
    (hk : k ≤ rows.length) (h : Chained crypto [] (rows.take k) heads) :
    heads.getLast?.getD (0, []) = (k, finalHead [] heads) := by
  have hlength : heads.length = k := by rw [h.length, List.length_take]; omega
  unfold finalHead
  cases hlast : heads.getLast? with
  | none =>
    rw [List.getLast?_eq_none_iff] at hlast
    subst hlast
    rw [← hlength]
    rfl
  | some e =>
    obtain ⟨init, rfl⟩ := List.getLast?_eq_some_iff.mp hlast
    rw [List.length_append, List.length_singleton] at hlength
    have hget : ((rows.take k).map fun row => row.seq)[init.length]? = some e.1 := by
      rw [← h.seqs]
      simp
    rw [List.getElem?_map, Option.map_eq_some_iff] at hget
    obtain ⟨row, hrow, hseq⟩ := hget
    rw [List.getElem?_take] at hrow
    split_ifs at hrow
    have := hrows _ row hrow
    rw [Option.getD_some, Option.map_some, Option.getD_some]
    exact Prod.ext_iff.mpr ⟨by dsimp only; omega, rfl⟩

theorem positions_mono {heads heads' : List (Nat × JsString)} (h : heads <+: heads') (head : JsString)
    (position : Nat) (hposition : firstPosition heads head = some position) :
    firstPosition heads' head = some position := by
  obtain ⟨rest, rfl⟩ := h
  exact firstPosition_append_of_some hposition rest

theorem extend_sound {maxChunks : Nat} {s : LogState} (h : Sound numerals crypto s) :
    Sound numerals crypto { s with tables := (extendHeadHashes crypto maxChunks s.tables).1 } ∧
      Extends s { s with tables := (extendHeadHashes crypto maxChunks s.tables).1 } ∧
      ((extendHeadHashes crypto maxChunks s.tables).2 = .current →
        Chained crypto [] s.tables.rows (extendHeadHashes crypto maxChunks s.tables).1.heads) := by
  obtain ⟨k, hk, hchained⟩ := h.column
  obtain ⟨prev, last, hcheckpointed, hlatest⟩ := h.checkpoints
  obtain ⟨k', hkk', hk', hchained', hcurrent⟩ :=
    extendChunks_chained h.numbered maxChunks hk hchained rfl
  have htail := hchained.tail h.numbered hk
  have hout : extendHeadHashes crypto maxChunks s.tables =
      ({ s.tables with heads := (extendChunks crypto s.tables.rows maxChunks k (finalHead [] s.tables.heads) s.tables.heads).1 },
        (extendChunks crypto s.tables.rows maxChunks k (finalHead [] s.tables.heads) s.tables.heads).2) := by
    unfold extendHeadHashes
    rw [htail]
  rw [hout]
  generalize extendChunks crypto s.tables.rows maxChunks k (finalHead [] s.tables.heads) s.tables.heads = out
    at hchained' hcurrent
  have hpre : s.tables.heads <+: out.1 := by
    have htake : Chained crypto [] ((s.tables.rows.take k').take k) s.tables.heads := by
      rw [List.take_take, Nat.min_eq_left hkk']
      exact hchained
    rw [htake.take hchained']
    exact List.take_prefix k _
  refine ⟨⟨h.numbered, ⟨k', hk', hchained'⟩, h.seqs, h.mirrored, h.bounded, h.written, prev, last, ?_, hlatest⟩,
    ⟨List.prefix_rfl, List.prefix_rfl, fun _ _ _ hm => hm, hpre⟩, fun hout => ?_⟩
  · exact hcheckpointed.mono (fun _ _ _ hm => hm) (positions_mono hpre)
  · rw [hcurrent hout, List.take_length] at hchained'
    exact hchained'

/-- Entries and rows are written: the checkpoints among them must be in their place. -/
theorem commit_sound {s : LogState} {entries : List ChainEntry} {events : List (JsString × AuditEventInput N)}
    (h : Sound numerals crypto s) (hmirrored : entries ≠ [] → events ≠ [])
    (hforeign : entries.map (fun entry => entry.seq) = List.range' (s.chain.length + 1) entries.length →
      ∀ event ∈ events, event.2.event = chainCheckpointed → ∃ chainSeq, event.2.chainSeq = some chainSeq ∧
      s.chain.length < chainSeq ∧ chainSeq ≤ s.chain.length + entries.length)
    (hplace : ∀ added, Numbered (s.tables.rows ++ added) → List.Forall₂ (RowOf numerals) events added →
      entries.map (fun entry => entry.seq) = List.range' (s.chain.length + 1) entries.length →
      ∃ prev last, Checkpointed (s.tables.rows ++ added) (firstPosition s.tables.heads) (s.chain ++ entries) prev last ∧
        latestCheckpointMirrorSeq { s.tables with rows := s.tables.rows ++ added } = prev.map Prod.snd) :
    Sound numerals crypto (commitEntries numerals s entries events) ∧ Extends s (commitEntries numerals s entries events) := by
  unfold commitEntries
  split_ifs with hseqs
  · exact ⟨h, .refl s⟩
  · cases happend : appendMany numerals s.tables.rows events with
    | none => exact ⟨h, .refl s⟩
    | some rows' =>
      obtain ⟨added, rfl, hnumbered, hrows⟩ := appendMany_spec h.numbered happend
      rw [not_not] at hseqs
      have hforeign := hforeign hseqs
      obtain ⟨k, hk, hchained⟩ := h.column
      have hnone : ∀ chainSeq ≤ s.chain.length, mirrorsOf added chainSeq = [] := by
        intro chainSeq hle
        unfold mirrorsOf
        rw [List.filter_eq_nil_iff]
        intro row hrow hmirror
        simp only [Bool.and_eq_true, decide_eq_true_eq] at hmirror
        obtain ⟨event, hevent, hof⟩ := event_of_row hrows hrow
        obtain ⟨chainSeq', hseq, hlt, -⟩ := hforeign event hevent (hof.1.symm.trans hmirror.1)
        rw [hof.2.1, hseq, Option.some.injEq] at hmirror
        omega
      refine ⟨⟨hnumbered, ⟨k, ?_, ?_⟩, ?_, ?_, ?_, ?_, hplace added hnumbered hrows hseqs⟩,
        ⟨List.prefix_append _ _, List.prefix_append _ _, fun chainSeq hle seq hm => ?_, List.prefix_rfl⟩⟩
      · rw [List.length_append]
        omega
      · rw [List.take_append_of_le_length hk]
        exact hchained
      · rw [List.map_append, h.seqs, hseqs, List.length_append, Nat.add_comm s.chain.length 1, List.range'_append_1]
      · intro _ hnil
        obtain ⟨hrowsNil, rfl⟩ := List.append_eq_nil_iff.mp hnil
        cases hrows
        have hentries : entries = [] := by
          by_contra hne
          exact hmirrored hne rfl
        have hchain : s.chain = [] := by
          by_contra hne
          exact h.mirrored hne hrowsNil
        simp_all
      · intro row hrow hmirror
        rw [List.length_append]
        rcases List.mem_append.mp hrow with hrow | hrow
        · obtain ⟨chainSeq, hseq, hle⟩ := h.bounded row hrow hmirror
          exact ⟨chainSeq, hseq, by omega⟩
        · obtain ⟨event, hevent, hof⟩ := event_of_row hrows hrow
          obtain ⟨chainSeq, hseq, -, hle⟩ := hforeign event hevent (hof.1.symm.trans hmirror)
          exact ⟨chainSeq, hof.2.1.trans hseq, hle⟩
      · intro row hrow
        rcases List.mem_append.mp hrow with hrow | hrow
        · exact h.written row hrow
        · obtain ⟨event, -, hof⟩ := event_of_row hrows hrow
          exact ⟨event.2, hof.2.2⟩
      · unfold MirroredAt at hm ⊢
        rw [mirrorsOf_append, hnone chainSeq hle, List.append_nil]
        exact hm

theorem Checkpointed.foreign {rows added : List AuditHeadRow} {positions : JsString → Option Nat}
    {entries : List ChainEntry} {prev last : Option (Nat × Nat)} (h : Checkpointed rows positions entries prev last)
    (hadded : ∀ row ∈ added, row.event ≠ chainCheckpointed) :
    Checkpointed (rows ++ added) positions entries prev last := by
  refine h.mono (fun entry _ seq hm => ?_) fun _ _ hp => hp
  unfold MirroredAt at hm ⊢
  rw [mirrorsOf_append, mirrorsOf_none hadded, List.append_nil]
  exact hm

theorem append_sound {s : LogState} (h : Sound numerals crypto s) (rows : DataRows N) :
    Sound numerals crypto (commitEntries numerals s [] rows.events) ∧ Extends s (commitEntries numerals s [] rows.events) := by
  refine commit_sound h (fun hne => absurd rfl hne) (fun _ event hevent hmirror => ?_) fun added _ hrows _ => ?_
  · exact absurd hmirror (rows.not_mirror event hevent)
  · obtain ⟨prev, last, hcheckpointed, hlatest⟩ := h.checkpoints
    have hadded := no_mirrors hrows rows.not_mirror
    rw [List.append_nil]
    exact ⟨prev, last, hcheckpointed.foreign hadded, (latest_append s.tables hadded).trans hlatest⟩

theorem acceptEntry_sound {s : LogState} (h : Sound numerals crypto s) (entry : OtherEntry N) :
    Sound numerals crypto (commitEntries numerals s [entry.entry] entry.rows.events) ∧
      Extends s (commitEntries numerals s [entry.entry] entry.rows.events) := by
  refine commit_sound h (fun _ => entry.mirrored) (fun _ event hevent hmirror => ?_) fun added _ hrows _ => ?_
  · exact absurd hmirror (entry.rows.not_mirror event hevent)
  · obtain ⟨prev, last, hcheckpointed, hlatest⟩ := h.checkpoints
    have hadded := no_mirrors hrows entry.rows.not_mirror
    exact ⟨prev, last, .other (hcheckpointed.foreign hadded) entry.not_checkpoint,
      (latest_append s.tables hadded).trans hlatest⟩

theorem forall₂_append_left {α β : Type} {R : α → β → Prop} {l l' : List α} {m : List β} (h : List.Forall₂ R (l ++ l') m) :
    ∃ m₁ m₂, m = m₁ ++ m₂ ∧ List.Forall₂ R l m₁ ∧ List.Forall₂ R l' m₂ := by
  induction l generalizing m with
  | nil => exact ⟨[], m, rfl, .nil, h⟩
  | cons a l ih =>
    rw [List.cons_append] at h
    cases h with
    | cons hab hrest =>
      obtain ⟨m₁, m₂, rfl, h₁, h₂⟩ := ih hrest
      exact ⟨_ :: m₁, m₂, rfl, .cons hab h₁, h₂⟩

/-- What stands between the last checkpoint's mirror and the head that is accepted. -/
theorem ensureAuditHeadAcceptable_ok {maxChunks : Nat} {admits : Bool} {head : JsString} {tables tables' : AuditTables}
    (h : ensureAuditHeadAcceptable crypto maxChunks admits head tables = (tables', .ok ())) :
    (head = [] ∧ tables' = tables) ∨
    head ≠ [] ∧ tables' = (extendHeadHashes crypto maxChunks tables).1 ∧
      ∃ position, firstPosition tables'.heads head = some position ∧
        ∀ floor ∈ latestCheckpointMirrorSeq tables', floor ≤ position := by
  unfold ensureAuditHeadAcceptable at h
  by_cases hempty : head = []
  · rw [if_pos hempty] at h
    cases h
    exact Or.inl ⟨hempty, rfl⟩
  · rw [if_neg hempty] at h
    refine Or.inr ⟨hempty, ?_⟩
    split_ifs at h with hstorage
    · cases h
    · dsimp only at h
      split_ifs at h with hcurrent
      · cases h
      · cases hposition : headPosition (extendHeadHashes crypto maxChunks tables).1 head with
        | none => rw [hposition] at h; cases h
        | some position =>
          rw [hposition] at h
          dsimp only at h
          cases hfloor : latestCheckpointMirrorSeq (extendHeadHashes crypto maxChunks tables).1 with
          | none =>
            rw [hfloor] at h
            cases h
            exact ⟨rfl, position, hposition, by simp [hfloor]⟩
          | some floor =>
            rw [hfloor] at h
            dsimp only at h
            split_ifs at h with hlt
            · cases h
            · cases h
              refine ⟨rfl, position, hposition, ?_⟩
              intro floor' hfloor'
              cases hfloor.symm.trans hfloor'
              omega

/-- The entry before a checkpoint in its request, where there is one. -/
def beforeEntries (before : Option (OtherEntry N)) : List ChainEntry := before.toList.map (·.entry)

def beforeEvents (before : Option (OtherEntry N)) : List (JsString × AuditEventInput N) :=
  before.toList.flatMap (·.rows.events)

theorem beforeEvents_foreign (before : Option (OtherEntry N)) :
    ∀ event ∈ beforeEvents before, event.2.event ≠ chainCheckpointed := by
  cases before with
  | none => simp [beforeEvents]
  | some entry => simpa [beforeEvents] using fun a b hmem => entry.rows.not_mirror (a, b) hmem

theorem checkpointed_before {rows : List AuditHeadRow} {positions : JsString → Option Nat} {entries : List ChainEntry}
    {prev last : Option (Nat × Nat)} (h : Checkpointed rows positions entries prev last) (before : Option (OtherEntry N)) :
    Checkpointed rows positions (entries ++ beforeEntries before) prev last := by
  cases before with
  | none => simpa [beforeEntries] using h
  | some entry => exact .other h entry.not_checkpoint

theorem acceptCheckpoint_place {s : LogState} (h : Sound numerals crypto s) (before : Option (OtherEntry N))
    (checkpoint : CheckpointEntry N) (after : DataRows N)
    (hhead : checkpoint.head ≠ [] → ∃ position, firstPosition s.tables.heads checkpoint.head = some position ∧
      ∀ floor ∈ latestCheckpointMirrorSeq s.tables, floor ≤ position)
    {added : List AuditHeadRow} (hnumbered : Numbered (s.tables.rows ++ added))
    (hrows : List.Forall₂ (RowOf numerals) (beforeEvents before ++ [checkpoint.mirror] ++ after.events) added)
    (hseq : s.chain.length < checkpoint.entry.seq) :
    ∃ prev last, Checkpointed (s.tables.rows ++ added) (firstPosition s.tables.heads)
        (s.chain ++ (beforeEntries before ++ [checkpoint.entry])) prev last ∧
      latestCheckpointMirrorSeq { s.tables with rows := s.tables.rows ++ added } = prev.map Prod.snd := by
  obtain ⟨prev, last, hcheckpointed, hlatest⟩ := h.checkpoints
  obtain ⟨k, -, hchained⟩ := h.column
  obtain ⟨front, back, rfl, hfront, hback⟩ := forall₂_append_left hrows
  obtain ⟨early, middle, rfl, hearly, hmiddle⟩ := forall₂_append_left hfront
  obtain ⟨row, hrow, rfl⟩ : ∃ row, RowOf numerals checkpoint.mirror row ∧ middle = [row] := by
    cases hmiddle with
    | cons hrow hnil => cases hnil; exact ⟨_, hrow, rfl⟩
  have hearlyRows := no_mirrors hearly (beforeEvents_foreign before)
  have hbackRows := no_mirrors hback after.not_mirror
  have hevent : row.event = chainCheckpointed := hrow.1.trans checkpoint.mirror_event
  have hchainSeq : row.chainSeq = some checkpoint.entry.seq := hrow.2.1.trans checkpoint.mirror_seq
  have hassoc : s.tables.rows ++ (early ++ [row] ++ back) = (s.tables.rows ++ early ++ [row]) ++ back := by simp
  have hnumberedRow : Numbered (s.tables.rows ++ early ++ [row]) := by
    intro i r hr
    apply hnumbered i r
    rw [hassoc, List.getElem?_append_left]
    · exact hr
    · exact (List.getElem?_eq_some_iff.mp hr).1
  have hrowSeq : row.seq = s.tables.rows.length + early.length + 1 := by
    have := hnumberedRow (s.tables.rows ++ early).length row (by simp)
    rw [this, List.length_append]
  have hmirror : MirroredAt (s.tables.rows ++ (early ++ [row] ++ back)) checkpoint.entry.seq row.seq := by
    have hold : mirrorsOf s.tables.rows checkpoint.entry.seq = [] := by
      unfold mirrorsOf
      rw [List.filter_eq_nil_iff]
      intro other hother hmirror
      simp only [Bool.and_eq_true, decide_eq_true_eq] at hmirror
      obtain ⟨chainSeq, hother, hle⟩ := h.bounded other hother hmirror.1
      rw [hother, Option.some.injEq] at hmirror
      omega
    have hself : mirrorsOf [row] checkpoint.entry.seq = [row] := by simp [mirrorsOf, hevent, hchainSeq]
    unfold MirroredAt
    rw [hassoc, mirrorsOf_append, mirrorsOf_append, mirrorsOf_append, hold, mirrorsOf_none hearlyRows, hself,
      mirrorsOf_none hbackRows]
    rfl
  have hlatestLe : ∀ p ∈ prev, p.2 ≤ s.tables.rows.length := by
    rintro p hp
    cases hp
    rw [Option.map_some] at hlatest
    unfold latestCheckpointMirrorSeq at hlatest
    rw [List.max?_eq_some_iff] at hlatest
    obtain ⟨other, hother, hseq⟩ := List.mem_map.mp hlatest.1
    rw [← hseq]
    exact (h.numbered.mem (List.mem_of_mem_filter hother)).2
  have hbefore : Checkpointed (s.tables.rows ++ (early ++ [row] ++ back)) (firstPosition s.tables.heads)
      (s.chain ++ beforeEntries before) prev last := by
    refine checkpointed_before (hcheckpointed.mono (fun entry hentry seq hm => ?_) fun _ _ hp => hp) before
    have hle : entry.seq ≤ s.chain.length := by
      have hmem : entry.seq ∈ s.chain.map fun entry => entry.seq := List.mem_map_of_mem hentry
      rw [h.seqs, List.mem_range'_1] at hmem
      omega
    have hself : mirrorsOf [row] entry.seq = [] := by
      unfold mirrorsOf
      rw [List.filter_eq_nil_iff]
      intro other hother hmirror
      rw [List.mem_singleton.mp hother, hchainSeq] at hmirror
      simp only [Bool.and_eq_true, decide_eq_true_eq, Option.some.injEq] at hmirror
      omega
    unfold MirroredAt at hm ⊢
    rw [hassoc, mirrorsOf_append, mirrorsOf_append, mirrorsOf_append, mirrorsOf_none hearlyRows, hself,
      mirrorsOf_none hbackRows]
    simpa using hm
  have hlatest' : latestCheckpointMirrorSeq { s.tables with rows := s.tables.rows ++ (early ++ [row] ++ back) } =
      some row.seq := by
    rw [hassoc]
    exact (latest_append { s.tables with rows := s.tables.rows ++ early ++ [row] } hbackRows).trans
      (latest_mirror { s.tables with rows := s.tables.rows ++ early } hevent hnumberedRow)
  rw [← List.append_assoc s.chain]
  by_cases hempty : checkpoint.head = []
  · have hentry := checkpoint.checkpoint
    rw [hempty] at hentry
    refine ⟨_, _, .silent hbefore hentry hmirror fun p hp => ?_, hlatest'⟩
    have := hlatestLe p hp
    omega
  · obtain ⟨position, hposition, hfloor⟩ := hhead hempty
    have hprev : ∀ p ∈ prev, p.2 ≤ position := fun p hp => hfloor p.2 (by rw [hlatest, hp]; rfl)
    refine ⟨_, _, .notarizing hbefore checkpoint.checkpoint hempty hmirror hposition (fun l hl => ?_) hprev ?_, hlatest'⟩
    · obtain ⟨p, hp, hlt⟩ := hcheckpointed.last_lt l hl
      exact hlt.le.trans (hprev p hp)
    · have := hchained.position_le h.numbered hposition
      omega

theorem acceptCheckpoint_sound {s : LogState} (h : Sound numerals crypto s) (before : Option (OtherEntry N))
    (checkpoint : CheckpointEntry N) (after : DataRows N)
    (hhead : checkpoint.head ≠ [] → ∃ position, firstPosition s.tables.heads checkpoint.head = some position ∧
      ∀ floor ∈ latestCheckpointMirrorSeq s.tables, floor ≤ position) :
    Sound numerals crypto (commitEntries numerals s (beforeEntries before ++ [checkpoint.entry])
        (beforeEvents before ++ [checkpoint.mirror] ++ after.events)) ∧
      Extends s (commitEntries numerals s (beforeEntries before ++ [checkpoint.entry])
        (beforeEvents before ++ [checkpoint.mirror] ++ after.events)) := by
  have hseq : (beforeEntries before ++ [checkpoint.entry]).map (fun entry => entry.seq) =
        List.range' (s.chain.length + 1) (beforeEntries before ++ [checkpoint.entry]).length →
      s.chain.length < checkpoint.entry.seq ∧
        checkpoint.entry.seq ≤ s.chain.length + (beforeEntries before ++ [checkpoint.entry]).length := by
    intro hseqs
    have hmem : checkpoint.entry.seq ∈ (beforeEntries before ++ [checkpoint.entry]).map fun entry => entry.seq := by simp
    rw [hseqs, List.mem_range'_1] at hmem
    omega
  refine commit_sound h (fun _ => by simp) (fun hseqs event hevent hmirror => ?_) fun added hnumbered hrows hseqs => ?_
  · rcases List.mem_append.mp hevent with hevent | hevent
    · rcases List.mem_append.mp hevent with hevent | hevent
      · exact absurd hmirror (beforeEvents_foreign before event hevent)
      · rw [List.mem_singleton.mp hevent]
        exact ⟨_, checkpoint.mirror_seq, hseq hseqs⟩
    · exact absurd hmirror (after.not_mirror event hevent)
  · exact acceptCheckpoint_place h before checkpoint after hhead hnumbered hrows (hseq hseqs).1

/-- Whatever is answered, the tables are as they were or extended. -/
theorem ensureAuditHeadAcceptable_tables (maxChunks : Nat) (admits : Bool) (head : JsString) (tables : AuditTables) :
    (ensureAuditHeadAcceptable crypto maxChunks admits head tables).1 = tables ∨
      (ensureAuditHeadAcceptable crypto maxChunks admits head tables).1 = (extendHeadHashes crypto maxChunks tables).1 := by
  unfold ensureAuditHeadAcceptable
  split_ifs
  · exact Or.inl rfl
  · exact Or.inl rfl
  · right
    dsimp only
    split_ifs
    · rfl
    · split
      · rfl
      · split <;> rfl

theorem step_sound {maxChunks : Nat} {s : LogState} (h : Sound numerals crypto s) (event : LogEvent N) :
    Sound numerals crypto (s.step numerals crypto maxChunks event) ∧
      Extends s (s.step numerals crypto maxChunks event) := by
  cases event with
  | append rows => exact append_sound h rows
  | acceptEntry entry => exact acceptEntry_sound h entry
  | readHead admits =>
    unfold LogState.step auditHeadProgram
    dsimp only
    obtain ⟨hsound, hextends, -⟩ := @extend_sound _ _ _ maxChunks _ h
    split_ifs
    · exact ⟨h, .refl s⟩
    · exact ⟨h, .refl s⟩
    · exact ⟨hsound, hextends⟩
    · exact ⟨hsound, hextends⟩
  | acceptCheckpoint admits before checkpoint after =>
    have htables := @ensureAuditHeadAcceptable_tables crypto maxChunks admits checkpoint.head s.tables
    obtain ⟨hsound, hextends, -⟩ := @extend_sound _ _ _ maxChunks _ h
    unfold LogState.step
    dsimp only
    cases hresult : ensureAuditHeadAcceptable crypto maxChunks admits checkpoint.head s.tables with
    | mk tables outcome =>
      rw [hresult] at htables
      dsimp only at htables
      have htablesSound : Sound numerals crypto { s with tables := tables } ∧ Extends s { s with tables := tables } := by
        rcases htables with rfl | rfl
        · exact ⟨h, .refl s⟩
        · exact ⟨hsound, hextends⟩
      cases outcome with
      | error reason => exact htablesSound
      | ok _ =>
        have haccept := acceptCheckpoint_sound htablesSound.1 before checkpoint after fun hhead => by
          rcases ensureAuditHeadAcceptable_ok hresult with ⟨hempty, -⟩ | ⟨-, -, hposition⟩
          · exact absurd hempty hhead
          · exact hposition
        exact ⟨haccept.1, htablesSound.2.trans haccept.2⟩

theorem sound_start : Sound numerals crypto .start where
  numbered := numbered_nil
  column := ⟨0, le_refl 0, .nil []⟩
  seqs := rfl
  mirrored := fun h => absurd rfl h
  bounded := by simp [LogState.start]
  written := by simp [LogState.start]
  checkpoints := ⟨none, none, .nil, rfl⟩

theorem run_sound {maxChunks : Nat} {s : LogState} (h : Sound numerals crypto s) (events : List (LogEvent N)) :
    Sound numerals crypto (s.run numerals crypto maxChunks events) ∧
      Extends s (s.run numerals crypto maxChunks events) := by
  induction events generalizing s with
  | nil => exact ⟨h, .refl s⟩
  | cons event rest ih =>
    obtain ⟨hsound, hextends⟩ := @step_sound _ _ _ maxChunks _ h event
    obtain ⟨hsound', hextends'⟩ := ih hsound
    exact ⟨hsound', hextends.trans hextends'⟩

end

end Maruhi.Audit
