import Maruhi.Audit.Head

/-!
# The next seq and the head column, task after task (`audit-store.ts`)

The instance remembers the next seq. A task that fails takes its writes back, and the remembered seq is dropped.
-/

open Text JsonText

namespace Maruhi.Audit
open Chain

/-- What the running task reads and writes, what the tasks before it left, and the next seq as it is remembered. -/
structure AuditStore where
  tables : AuditTables
  committed : AuditTables
  nextSeqCache : Option Nat

namespace AuditStore

def empty : AuditStore := ⟨⟨[], []⟩, ⟨[], []⟩, none⟩

def nextSeq (s : AuditStore) : Nat := s.nextSeqCache.getD (Audit.nextSeq s.tables.rows)

def resetSeqCacheSync (s : AuditStore) : AuditStore := { s with nextSeqCache := none }

/-- The task is over: what it wrote stays. -/
def commit (s : AuditStore) : AuditStore := { s with committed := s.tables }

/-- The task failed: what it wrote is taken back. -/
def rollback (s : AuditStore) : AuditStore := { s with tables := s.committed }

end AuditStore

/-! ## Appends -/

section Appends
variable {N : Type} (numerals : Numerals N) (payloadAllowed : AuditEventInput N → Bool)

/-- The checks that throw before a seq is taken. -/
def assertAppendable (event : AuditEventInput N) : Bool := assertChainSeqInvariant event && payloadAllowed event

def numberedFrom : Nat → List (JsString × AuditEventInput N) → List AuditHeadRow
  | _, [] => []
  | seq, event :: rest => auditRow numerals seq event.1 event.2 :: numberedFrom (seq + 1) rest

attribute [grind =] numberedFrom

namespace AuditStore

/-- One statement, and the seq after it remembered. -/
def insertRows (s : AuditStore) (events : List (JsString × AuditEventInput N)) : AuditStore :=
  { s with
    tables := { s.tables with rows := s.tables.rows ++ numberedFrom numerals s.nextSeq events }
    nextSeqCache := some (s.nextSeq + events.length) }

/-- `fails`: the statement throws. -/
def appendSync (s : AuditStore) (event : JsString × AuditEventInput N) (fails : Bool) : AuditStore :=
  if !assertAppendable payloadAllowed event.2 then s
  else if fails then s.resetSeqCacheSync
  else s.insertRows numerals [event]

/-- `APPEND_CHUNK_ROWS` -/
def appendChunkRows : Nat := 5

/-- The statements of `appendManySync`, one a chunk; the one at `failsAt` throws. -/
def appendChunks (failsAt : Option Nat) (s : AuditStore) (events : List (JsString × AuditEventInput N)) : AuditStore :=
  if events.isEmpty then s
  else if failsAt = some 0 then s.resetSeqCacheSync
  else appendChunks (failsAt.map (· - 1)) (s.insertRows numerals (events.take appendChunkRows))
    (events.drop appendChunkRows)
  termination_by events.length
  decreasing_by
    rename_i hne _
    rw [List.isEmpty_iff, ← List.length_eq_zero_iff] at hne
    rw [List.length_drop, appendChunkRows]
    omega

def appendManySync (s : AuditStore) (events : List (JsString × AuditEventInput N)) (failsAt : Option Nat) : AuditStore :=
  if events.all fun event => assertAppendable payloadAllowed event.2 then s.appendChunks numerals failsAt events else s

end AuditStore

end Appends

/-! ## The column -/

namespace AuditStore

/-- The loop over the chunks. Hashing awaits, so the task before it is over; the `INSERT` at `failsAt` throws. -/
def extendTasks (crypto : Crypto) : Nat → Option Nat → Nat → JsString → AuditStore → AuditStore × HeadExtension
  | 0, _, hashedUpTo, _, s =>
    (s, if s.tables.rows.any fun row => hashedUpTo < row.seq then .moreRemains else .current)
  | chunks + 1, failsAt, hashedUpTo, head, s =>
    match deriveChunk crypto s.tables.rows hashedUpTo head with
    | none => (s, .defect)
    | some (state, done) =>
      if state.inserts.isEmpty then (s, .current)
      else if failsAt = some 0 then (s.commit, .defect)
      else
        let stored := { s.commit with tables := { s.tables with heads := s.tables.heads ++ state.inserts } }
        if done then (stored, .current)
        else extendTasks crypto chunks (failsAt.map (· - 1)) state.hashedUpTo state.head stored

attribute [grind =] extendTasks

def ensureHeadCurrent (crypto : Crypto) (maxChunks : Nat) (failsAt : Option Nat) (s : AuditStore) :
    AuditStore × HeadExtension :=
  let tail := s.tables.heads.getLast?.getD (0, [])
  extendTasks crypto maxChunks failsAt tail.1 tail.2 s

end AuditStore

/-- The chunks of `deriveAuditHeads`. Once `stores` says no, the rest is hashed and not written. -/
def deriveChunks (crypto : Crypto) (rows : List AuditHeadRow) (stores : Nat → Bool) :
    Nat → Nat → Bool → Nat → JsString → List (Nat × JsString) → List (Nat × JsString) × Option JsString
  | 0, _, _, _, _, target => (target, none)
  | fuel + 1, chunk, persist, hashedUpTo, head, target =>
    let persists := persist && stores chunk
    match deriveChunk crypto rows hashedUpTo head with
    | none => (target, none)
    | some (state, done) =>
      let written := if persists then target ++ state.inserts else target
      if done then (written, some state.head)
      else deriveChunks crypto rows stores fuel (chunk + 1) persists state.hashedUpTo state.head written

attribute [grind =] deriveChunks

/-- What is written to the target, and the head at the end of the log, none where the log is refused. -/
def deriveAuditHeads (crypto : Crypto) (rows : List AuditHeadRow) (fromSeq : Nat) (prevHead : JsString)
    (stores : Nat → Bool) : List (Nat × JsString) × Option JsString :=
  deriveChunks crypto rows stores (rows.length + 1) 0 true fromSeq prevHead []

/-! ## One pass over the log -/

/-- The head of the first `k` rows: h_i = H(h_{i-1}, i, digest of row i). -/
def headAt (crypto : Crypto) (rows : List AuditHeadRow) (k : Nat) : Option JsString :=
  (rows.take k).foldlM (nextHead crypto) []

section Column
variable {crypto : Crypto} {rows : List AuditHeadRow} {heads : List (Nat × JsString)} {head : JsString} {k : Nat}

theorem Chained.fold (h : Chained crypto head rows heads) :
    rows.foldlM (nextHead crypto) head = some (finalHead head heads) := by
  induction h with
  | nil head => rfl
  | cons hnext _ ih => rw [List.foldlM_cons, hnext, finalHead_cons]; exact ih

theorem Chained.firstRows (h : Chained crypto head rows heads) (j : Nat) :
    Chained crypto head (rows.take j) (heads.take j) := by
  induction h generalizing j with
  | nil head => simpa using Chained.nil head
  | cons hnext _ ih =>
    cases j with
    | zero => exact .nil _
    | succ j =>
      rw [List.take_succ_cons, List.take_succ_cons]
      exact .cons hnext (ih j)

theorem Chained.fst (h : Chained crypto head rows heads) : heads.map Prod.fst = rows.map fun row => row.seq := by
  induction h with
  | nil head => rfl
  | cons _ _ ih => rw [List.map_cons, List.map_cons, ih]

theorem finalHead_getElem? {i : Nat} {e : Nat × JsString} (h : heads[i]? = some e) :
    finalHead head (heads.take (i + 1)) = e.2 := by
  rw [List.take_add_one, h, Option.toList_some, finalHead_append]
  rfl

theorem Numbered.seqs (h : Numbered rows) : rows.map (fun row => row.seq) = List.range' 1 rows.length := by
  refine List.ext_getElem (by simp) fun i hi hi' => ?_
  rw [List.length_map] at hi
  rw [List.getElem_map, List.getElem_range', h i _ (List.getElem?_eq_getElem hi)]
  omega

/-- The heads of a prefix of the rows. -/
structure Derived (crypto : Crypto) (t : AuditTables) : Prop where
  numbered : Numbered t.rows
  covers : t.heads.length ≤ t.rows.length
  chained : Chained crypto [] (t.rows.take t.heads.length) t.heads

theorem derived_empty : Derived crypto ⟨[], []⟩ := ⟨numbered_nil, Nat.le_refl 0, .nil []⟩

variable {t : AuditTables}

theorem Derived.seqs (h : Derived crypto t) : t.heads.map Prod.fst = List.range' 1 t.heads.length := by
  have hnumbered : Numbered (t.rows.take t.heads.length) := by
    intro i row hi
    rw [List.getElem?_take] at hi
    split_ifs at hi
    exact h.numbered i row hi
  have hseqs := hnumbered.seqs
  rwa [← h.chained.fst, ← h.chained.length] at hseqs

theorem Derived.stored (h : Derived crypto t) {i : Nat} {e : Nat × JsString} (he : t.heads[i]? = some e) :
    e.1 = i + 1 ∧ headAt crypto t.rows (i + 1) = some e.2 := by
  obtain ⟨hlt, hget⟩ := List.getElem?_eq_some_iff.mp he
  constructor
  · have hseq : (t.heads.map Prod.fst)[i]? = some e.1 := by rw [List.getElem?_map, he]; rfl
    rw [h.seqs, List.getElem?_range' (by omega)] at hseq
    have := Option.some.inj hseq
    omega
  · have hprefix := (h.chained.firstRows (i + 1)).fold
    rw [List.take_take, Nat.min_eq_left (by omega), finalHead_getElem? he] at hprefix
    exact hprefix

theorem Derived.tail (h : Derived crypto t) : (t.heads.getLast?.getD (0, [])).1 = t.heads.length ∧
    (t.heads.getLast?.getD (0, [])).2 = finalHead [] t.heads := by
  unfold finalHead
  cases hlast : t.heads.getLast? with
  | none =>
    rw [List.getLast?_eq_none_iff] at hlast
    rw [hlast]
    exact ⟨rfl, rfl⟩
  | some e =>
    refine ⟨?_, rfl⟩
    rw [List.getLast?_eq_getElem?] at hlast
    obtain ⟨hlt, -⟩ := List.getElem?_eq_some_iff.mp hlast
    rw [Option.getD_some, (h.stored hlast).1]
    omega

theorem Derived.append (h : Derived crypto t) {more : List AuditHeadRow} (hmore : Numbered (t.rows ++ more)) :
    Derived crypto { t with rows := t.rows ++ more } where
  numbered := hmore
  covers := by rw [List.length_append]; exact Nat.le_add_right_of_le h.covers
  chained := by
    show Chained crypto [] ((t.rows ++ more).take t.heads.length) t.heads
    rw [List.take_append_of_le_length h.covers]
    exact h.chained

end Column

/-! ## What one chunk does -/

section Chunks
variable {crypto : Crypto} {rows : List AuditHeadRow} {head : JsString} {k : Nat}

/-- The next chunk is empty, refused, or hashed along the rows. -/
inductive ChunkOutcome (crypto : Crypto) (rows : List AuditHeadRow) (k : Nat) (head : JsString) :
    Option (ChunkState × Bool) → Prop
  | finished (h : rows.length ≤ k) : ChunkOutcome crypto rows k head (some (⟨k, head, []⟩, true))
  | refused (h : k < rows.length) (hnone : (rows.drop k).foldlM (nextHead crypto) head = none) :
      ChunkOutcome crypto rows k head none
  | hashed (n : Nat) (heads : List (Nat × JsString)) (h : k < rows.length) (hn : 0 < n) (hle : k + n ≤ rows.length)
      (hchained : Chained crypto head ((rows.drop k).take n) heads) (done : Bool)
      (hdone : done = true → k + n = rows.length) :
      ChunkOutcome crypto rows k head (some (⟨k + n, finalHead head heads, heads⟩, done))

theorem hashRows_refused {rows : List AuditHeadRow} (state : ChunkState)
    (hseq : ∀ i row, rows[i]? = some row → row.seq = state.hashedUpTo + i + 1)
    (h : rows.foldlM (hashRow crypto) state = none) : rows.foldlM (nextHead crypto) state.head = none := by
  induction rows generalizing state with
  | nil => cases h
  | cons row rest ih =>
    rw [List.foldlM_cons] at h ⊢
    have hrow : row.seq = state.hashedUpTo + 1 := hseq 0 row rfl
    cases hnext : nextHead crypto state.head row with
    | none => rfl
    | some next =>
      have hstep : hashRow crypto state row = some ⟨row.seq, next, state.inserts ++ [(row.seq, next)]⟩ := by
        simp [hashRow, hrow, hnext]
      rw [hstep] at h
      refine ih _ (fun i r hr => ?_) h
      have hr := hseq (i + 1) r hr
      dsimp only
      omega

theorem foldlM_take_none {α β : Type} {f : β → α → Option β} {b : β} {l : List α} {n : Nat}
    (h : (l.take n).foldlM f b = none) : l.foldlM f b = none := by
  rw [← List.take_append_drop n l, List.foldlM_append, h]
  rfl

theorem deriveChunk_outcome (crypto : Crypto) (hrows : Numbered rows) (k : Nat) (head : JsString) :
    ChunkOutcome crypto rows k head (deriveChunk crypto rows k head) := by
  unfold deriveChunk
  rw [hrows.filter_after]
  dsimp only
  split_ifs with hempty
  · refine .finished ?_
    rw [List.isEmpty_iff, List.take_eq_nil_iff, List.drop_eq_nil_iff] at hempty
    exact hempty.resolve_left (by decide)
  · have hlt : k < rows.length := by
      rw [List.isEmpty_iff, List.take_eq_nil_iff, List.drop_eq_nil_iff] at hempty
      omega
    have hlength : ((rows.drop k).take headChunkRows).length = min headChunkRows (rows.length - k) := by
      rw [List.length_take, List.length_drop]
    have hpos : 0 < headChunkRows := by decide
    cases hfold : ((rows.drop k).take headChunkRows).foldlM (hashRow crypto) ⟨k, head, []⟩ with
    | none =>
      refine .refused hlt (foldlM_take_none (n := headChunkRows) (hashRows_refused ⟨k, head, []⟩ ?_ hfold))
      intro i row hi
      rw [List.getElem?_take] at hi
      split_ifs at hi
      rw [List.getElem?_drop] at hi
      rw [hrows _ row hi]
    | some state =>
      obtain ⟨hup, heads, hchained, hins, hhead⟩ := hashRows_chained hfold
      have hout : state = ⟨k + ((rows.drop k).take headChunkRows).length, finalHead head heads, heads⟩ := by
        rw [← hup, ← hhead, show heads = state.inserts from by simpa using hins.symm]
      rw [Option.map_some, hout, hlength]
      have htake : (rows.drop k).take headChunkRows = (rows.drop k).take (min headChunkRows (rows.length - k)) := by
        rw [List.take_eq_take_iff, List.length_drop]
        omega
      rw [htake] at hchained
      refine .hashed _ heads hlt (by omega) (by omega) hchained _ fun hdone => ?_
      rw [decide_eq_true_eq] at hdone
      omega

end Chunks

theorem Derived.extend {crypto : Crypto} {t : AuditTables} (h : Derived crypto t) {n : Nat} {heads : List (Nat × JsString)}
    (hle : t.heads.length + n ≤ t.rows.length)
    (hchained : Chained crypto (finalHead [] t.heads) ((t.rows.drop t.heads.length).take n) heads) :
    heads.length = n ∧ Derived crypto { t with heads := t.heads ++ heads } := by
  have hlength : heads.length = n := by
    rw [hchained.length, List.length_take, List.length_drop]
    omega
  refine ⟨hlength, h.numbered, ?_, ?_⟩
  · rw [List.length_append, hlength]
    exact hle
  · show Chained crypto [] (t.rows.take (t.heads ++ heads).length) (t.heads ++ heads)
    rw [List.length_append, hlength, List.take_add]
    exact h.chained.append hchained

/-! ## What one operation keeps -/

namespace AuditStore

/-- Storage is in order, and so is what a failed task goes back to; the remembered seq is the next one. -/
structure Sound (crypto : Crypto) (s : AuditStore) : Prop where
  tables : Derived crypto s.tables
  committed : Derived crypto s.committed
  cache : ∀ n, s.nextSeqCache = some n → n = s.tables.rows.length + 1

section Keeps
variable {crypto : Crypto} {s : AuditStore}

theorem sound_empty : Sound crypto empty := ⟨derived_empty, derived_empty, nofun⟩

theorem Sound.nextSeq (h : Sound crypto s) : s.nextSeq = s.tables.rows.length + 1 := by
  unfold AuditStore.nextSeq
  cases hcache : s.nextSeqCache with
  | none => exact h.tables.numbered.nextSeq
  | some n => exact h.cache n hcache

theorem Sound.reset (h : Sound crypto s) : Sound crypto s.resetSeqCacheSync := ⟨h.tables, h.committed, nofun⟩

theorem Sound.commit (h : Sound crypto s) : Sound crypto s.commit := ⟨h.tables, h.tables, h.cache⟩

/-- The rollback leaves the remembered seq ahead of the rows; the reset after it drops it. -/
theorem Sound.rollback_reset (h : Sound crypto s) : Sound crypto s.rollback.resetSeqCacheSync :=
  ⟨h.committed, h.committed, nofun⟩

variable {N : Type} (numerals : Numerals N) (payloadAllowed : AuditEventInput N → Bool)

theorem length_numberedFrom (seq : Nat) (events : List (JsString × AuditEventInput N)) :
    (numberedFrom numerals seq events).length = events.length := by
  induction events generalizing seq with
  | nil => rfl
  | cons event rest ih => rw [numberedFrom, List.length_cons, List.length_cons, ih]

theorem numbered_append_numberedFrom {rows : List AuditHeadRow} (h : Numbered rows)
    (events : List (JsString × AuditEventInput N)) :
    Numbered (rows ++ numberedFrom numerals (rows.length + 1) events) := by
  induction events generalizing rows with
  | nil => simpa [numberedFrom] using h
  | cons event rest ih =>
    have hone := @Numbered.append rows h (auditRow numerals (rows.length + 1) event.1 event.2) rfl
    have hrest := ih hone
    rw [List.length_append, List.length_singleton, List.append_assoc, List.singleton_append] at hrest
    exact hrest

theorem Sound.insertRows (h : Sound crypto s) (events : List (JsString × AuditEventInput N)) :
    Sound crypto (s.insertRows numerals events) where
  tables := by
    show Derived crypto { s.tables with rows := _ }
    rw [h.nextSeq]
    exact h.tables.append (numbered_append_numberedFrom numerals h.tables.numbered events)
  committed := h.committed
  cache n hn := by
    cases Option.some.inj hn
    show s.nextSeq + events.length = (s.tables.rows ++ numberedFrom numerals s.nextSeq events).length + 1
    rw [List.length_append, length_numberedFrom, h.nextSeq]
    omega

theorem Sound.appendSync (h : Sound crypto s) (event : JsString × AuditEventInput N) (fails : Bool) :
    Sound crypto (s.appendSync numerals payloadAllowed event fails) := by
  unfold AuditStore.appendSync
  split_ifs
  · exact h
  · exact h.reset
  · exact h.insertRows numerals [event]

theorem Sound.appendChunks (h : Sound crypto s) (failsAt : Option Nat) (events : List (JsString × AuditEventInput N)) :
    Sound crypto (s.appendChunks numerals failsAt events) := by
  induction failsAt, s, events using AuditStore.appendChunks.induct numerals with
  | case1 failsAt s events hempty =>
    unfold AuditStore.appendChunks
    rwa [if_pos hempty]
  | case2 s events hempty =>
    unfold AuditStore.appendChunks
    rw [if_neg hempty, if_pos rfl]
    exact h.reset
  | case3 failsAt s events hempty hfails ih =>
    unfold AuditStore.appendChunks
    rw [if_neg hempty, if_neg hfails]
    exact ih (h.insertRows numerals _)

theorem Sound.appendManySync (h : Sound crypto s) (events : List (JsString × AuditEventInput N))
    (failsAt : Option Nat) : Sound crypto (s.appendManySync numerals payloadAllowed events failsAt) := by
  unfold AuditStore.appendManySync
  split_ifs
  · exact h.appendChunks numerals failsAt events
  · exact h

/-- What a call of `ensureHeadCurrent` leaves and answers; `more-remains` after at least one chunk moves on. -/
structure Extended (crypto : Crypto) (s s' : AuditStore) (answer : HeadExtension) (chunks : Nat) : Prop where
  sound : Sound crypto s'
  rows : s'.tables.rows = s.tables.rows
  grows : s.tables.heads.length ≤ s'.tables.heads.length
  current : answer = .current ↔ s'.tables.heads.length = s'.tables.rows.length
  advances : answer = .moreRemains → 0 < chunks → s.tables.heads.length < s'.tables.heads.length

theorem any_after {rows : List AuditHeadRow} (hrows : Numbered rows) (k : Nat) :
    (rows.any fun row => k < row.seq) = true ↔ k < rows.length := by
  rw [List.any_eq_true]
  constructor
  · rintro ⟨row, hrow, hlt⟩
    exact Nat.lt_of_lt_of_le (of_decide_eq_true hlt) (hrows.mem hrow).2
  · intro hlt
    refine ⟨rows[k], List.getElem_mem hlt, ?_⟩
    rw [hrows k rows[k] (List.getElem?_eq_getElem hlt)]
    simp

theorem extendTasks_extended (h : Sound crypto s) (chunks : Nat) (failsAt : Option Nat) :
    Extended crypto s
      (extendTasks crypto chunks failsAt s.tables.heads.length (finalHead [] s.tables.heads) s).1
      (extendTasks crypto chunks failsAt s.tables.heads.length (finalHead [] s.tables.heads) s).2 chunks := by
  have hcovers := h.tables.covers
  induction chunks generalizing s failsAt with
  | zero =>
    refine ⟨h, rfl, Nat.le_refl _, ?_, fun _ hpos => absurd hpos (Nat.lt_irrefl 0)⟩
    have hany := any_after h.tables.numbered s.tables.heads.length
    unfold extendTasks
    dsimp only
    split_ifs with hmore
    · exact ⟨nofun, fun heq => absurd heq (Nat.ne_of_lt (hany.mp hmore))⟩
    · exact ⟨fun _ => Nat.le_antisymm hcovers (Nat.not_lt.mp (mt hany.mpr hmore)), fun _ => rfl⟩
  | succ chunks ih =>
    have houtcome := deriveChunk_outcome crypto h.tables.numbered s.tables.heads.length
      (finalHead [] s.tables.heads)
    unfold extendTasks
    generalize deriveChunk crypto s.tables.rows s.tables.heads.length (finalHead [] s.tables.heads) = out at houtcome ⊢
    cases houtcome with
    | finished hend =>
      dsimp only
      rw [if_pos List.isEmpty_nil]
      exact ⟨h, rfl, Nat.le_refl _, ⟨fun _ => Nat.le_antisymm hcovers hend, fun _ => rfl⟩, nofun⟩
    | refused hlt _ =>
      exact ⟨h, rfl, Nat.le_refl _, ⟨nofun, fun heq => absurd heq (Nat.ne_of_lt hlt)⟩, nofun⟩
    | hashed n heads hlt hn hle hchained done hdone =>
      obtain ⟨hlength, hderived⟩ := h.tables.extend hle hchained
      have hempty : ¬ heads.isEmpty = true := by
        rw [List.isEmpty_iff, ← List.length_eq_zero_iff]
        omega
      dsimp only
      rw [if_neg hempty]
      split_ifs with hfails hend
      · exact ⟨h.commit, rfl, Nat.le_refl _, ⟨nofun, fun heq => absurd heq (Nat.ne_of_lt hlt)⟩, nofun⟩
      · have hall : (s.tables.heads ++ heads).length = s.tables.rows.length := by
          rw [List.length_append, hlength, hdone hend]
        refine ⟨⟨hderived, h.tables, h.cache⟩, rfl, ?_, ⟨fun _ => hall, fun _ => rfl⟩, nofun⟩
        exact hcovers.trans (Nat.le_of_eq hall.symm)
      · have hnext := ih (s := { s.commit with tables := { s.tables with heads := s.tables.heads ++ heads } })
          ⟨hderived, h.tables, h.cache⟩ (failsAt.map (· - 1)) hderived.covers
        dsimp only at hnext
        rw [List.length_append, hlength, finalHead_append] at hnext
        refine ⟨hnext.sound, hnext.rows, ?_, hnext.current, fun _ _ => ?_⟩
        · have := hnext.grows
          rw [List.length_append] at this
          omega
        · have := hnext.grows
          rw [List.length_append] at this
          omega

theorem Sound.ensureHeadCurrent (h : Sound crypto s) (maxChunks : Nat) (failsAt : Option Nat) :
    Extended crypto s (s.ensureHeadCurrent crypto maxChunks failsAt).1
      (s.ensureHeadCurrent crypto maxChunks failsAt).2 maxChunks := by
  unfold AuditStore.ensureHeadCurrent
  dsimp only
  rw [h.tables.tail.1, h.tables.tail.2]
  exact extendTasks_extended h maxChunks failsAt

end Keeps

end AuditStore

/-! ## Deriving from any stored position -/

theorem deriveChunks_snd {crypto : Crypto} {rows : List AuditHeadRow} (hrows : Numbered rows) (stores : Nat → Bool)
    (fuel chunk : Nat) (persist : Bool) (k : Nat) (head : JsString) (target : List (Nat × JsString))
    (hfuel : rows.length - k < fuel) :
    (deriveChunks crypto rows stores fuel chunk persist k head target).2 =
      (rows.drop k).foldlM (nextHead crypto) head := by
  induction fuel generalizing chunk persist k head target with
  | zero => omega
  | succ fuel ih =>
    have houtcome := deriveChunk_outcome crypto hrows k head
    unfold deriveChunks
    generalize deriveChunk crypto rows k head = out at houtcome ⊢
    cases houtcome with
    | finished hend => rw [List.drop_eq_nil_of_le hend]; rfl
    | refused hlt hnone => rw [hnone]
    | hashed n heads hlt hn hle hchained done hdone =>
      have hsplit : (rows.drop k).foldlM (nextHead crypto) head =
          (rows.drop (k + n)).foldlM (nextHead crypto) (finalHead head heads) := by
        rw [← List.take_append_drop n (rows.drop k), List.foldlM_append, hchained.fold, List.drop_drop]
        rfl
      rw [hsplit]
      cases done with
      | true =>
        rw [List.drop_eq_nil_of_le (Nat.le_of_eq (hdone rfl).symm)]
        rfl
      | false => exact ih (chunk + 1) _ (k + n) (finalHead head heads) _ (by omega)

/-- From a stored position, in chunks, the head of the log is that of one pass. -/
theorem deriveAuditHeads_snd {crypto : Crypto} {rows : List AuditHeadRow} (hrows : Numbered rows) {k : Nat}
    {head : JsString} (hhead : headAt crypto rows k = some head) (stores : Nat → Bool) :
    (deriveAuditHeads crypto rows k head stores).2 = headAt crypto rows rows.length := by
  unfold deriveAuditHeads
  rw [deriveChunks_snd hrows stores _ _ _ _ _ _ (by omega)]
  unfold headAt at hhead ⊢
  rw [List.take_length]
  conv_rhs => rw [← List.take_append_drop k rows, List.foldlM_append, hhead]
  rfl

/-! ## Every run -/

section Runs
variable {N : Type} (crypto : Crypto) (numerals : Numerals N) (payloadAllowed : AuditEventInput N → Bool)

/-- `taskFails` takes the writes of the task back and resets the remembered seq. -/
inductive StoreEvent (N : Type)
  | append (event : JsString × AuditEventInput N) (fails : Bool)
  | appendMany (events : List (JsString × AuditEventInput N)) (failsAt : Option Nat)
  | taskEnds
  | taskFails
  | ensureHeadCurrent (maxChunks : Nat) (failsAt : Option Nat)

namespace AuditStore

def step (s : AuditStore) : StoreEvent N → AuditStore × Option HeadExtension
  | .append event fails => (s.appendSync numerals payloadAllowed event fails, none)
  | .appendMany events failsAt => (s.appendManySync numerals payloadAllowed events failsAt, none)
  | .taskEnds => (s.commit, none)
  | .taskFails => (s.rollback.resetSeqCacheSync, none)
  | .ensureHeadCurrent maxChunks failsAt =>
    ((s.ensureHeadCurrent crypto maxChunks failsAt).1, some (s.ensureHeadCurrent crypto maxChunks failsAt).2)

end AuditStore

/-- One step of a run: the store before it, the event, the store after it and the answer. -/
structure StoreTransition (N : Type) where
  before : AuditStore
  event : StoreEvent N
  after : AuditStore
  answer : Option HeadExtension

def transitionsOf (s : AuditStore) : List (StoreEvent N) → List (StoreTransition N)
  | [] => []
  | event :: rest =>
    let next := s.step crypto numerals payloadAllowed event
    ⟨s, event, next.1, next.2⟩ :: transitionsOf next.1 rest

attribute [grind =] transitionsOf

/-- The seqs are 1 to n; the column has the heads of one pass for 1 to k, and from there the head of the log is
that of one pass again. -/
structure InOrder (t : AuditTables) : Prop where
  seqs : t.rows.map (fun row => row.seq) = List.range' 1 t.rows.length
  covers : t.heads.length ≤ t.rows.length
  column : t.heads.map Prod.fst = List.range' 1 t.heads.length
  heads : ∀ e ∈ t.heads, headAt crypto t.rows e.1 = some e.2
  derives : ∀ e ∈ (0, []) :: t.heads, ∀ stores,
    (deriveAuditHeads crypto t.rows e.1 e.2 stores).2 = headAt crypto t.rows t.rows.length

/-- What `ensureHeadCurrent` answers is true of the column, and `more-remains` is progress. -/
structure Answers (t : StoreTransition N) : Prop where
  current : ∀ answer, t.answer = some answer →
    (answer = .current ↔ t.after.tables.heads.length = t.after.tables.rows.length)
  advances : t.answer = some .moreRemains → t.before.tables.heads.length < t.after.tables.heads.length

variable {crypto}

theorem Derived.inOrder {t : AuditTables} (h : Derived crypto t) : InOrder crypto t := by
  have hheads : ∀ e ∈ t.heads, headAt crypto t.rows e.1 = some e.2 := by
    intro e he
    obtain ⟨i, hi⟩ := List.mem_iff_getElem?.mp he
    obtain ⟨hseq, hhead⟩ := h.stored hi
    rw [hseq, hhead]
  refine ⟨h.numbered.seqs, h.covers, h.seqs, hheads, fun e he stores => ?_⟩
  rcases List.mem_cons.mp he with rfl | he
  · exact deriveAuditHeads_snd h.numbered rfl stores
  · exact deriveAuditHeads_snd h.numbered (hheads e he) stores

theorem operation_sound {s : AuditStore} (h : s.Sound crypto) (event : StoreEvent N)
    (hlimit : ∀ maxChunks failsAt, event = .ensureHeadCurrent maxChunks failsAt → 1 ≤ maxChunks) :
    (s.step crypto numerals payloadAllowed event).1.Sound crypto ∧
      Answers ⟨s, event, (s.step crypto numerals payloadAllowed event).1,
        (s.step crypto numerals payloadAllowed event).2⟩ := by
  cases event with
  | append event fails => exact ⟨h.appendSync numerals payloadAllowed event fails, nofun, nofun⟩
  | appendMany events failsAt => exact ⟨h.appendManySync numerals payloadAllowed events failsAt, nofun, nofun⟩
  | taskEnds => exact ⟨h.commit, nofun, nofun⟩
  | taskFails => exact ⟨h.rollback_reset, nofun, nofun⟩
  | ensureHeadCurrent maxChunks failsAt =>
    have hextended := h.ensureHeadCurrent maxChunks failsAt
    refine ⟨hextended.sound, ?_, ?_⟩
    · intro answer hanswer
      cases hanswer
      exact hextended.current
    · intro hmore
      exact hextended.advances (Option.some.inj hmore) (hlimit maxChunks failsAt rfl)

theorem operations_sound {s : AuditStore} (h : s.Sound crypto) (events : List (StoreEvent N))
    (hlimits : ∀ maxChunks failsAt, .ensureHeadCurrent maxChunks failsAt ∈ events → 1 ≤ maxChunks) :
    ∀ t ∈ transitionsOf crypto numerals payloadAllowed s events, t.after.Sound crypto ∧ Answers t := by
  induction events generalizing s with
  | nil => simp [transitionsOf]
  | cons event rest ih =>
    obtain ⟨hsound, hanswers⟩ := operation_sound numerals payloadAllowed h event
      (fun maxChunks failsAt heq => hlimits maxChunks failsAt (List.mem_cons.mpr (Or.inl heq.symm)))
    exact List.forall_mem_cons.mpr ⟨⟨hsound, hanswers⟩,
      ih hsound fun maxChunks failsAt hmem => hlimits maxChunks failsAt (List.mem_cons_of_mem _ hmem)⟩

end Runs

/-- The audit log over every run: its numbering, its head column and what `ensureHeadCurrent` answers of it. -/
theorem audit_log_in_order {N : Type} (crypto : Crypto) (numerals : Numerals N)
    (payloadAllowed : AuditEventInput N → Bool) (events : List (StoreEvent N))
    (hlimits : ∀ maxChunks failsAt, .ensureHeadCurrent maxChunks failsAt ∈ events → 1 ≤ maxChunks) :
    ∀ t ∈ transitionsOf crypto numerals payloadAllowed .empty events,
      InOrder crypto t.after.tables ∧ Answers t := by
  intro t ht
  obtain ⟨hsound, hanswers⟩ := operations_sound numerals payloadAllowed AuditStore.sound_empty events hlimits t ht
  exact ⟨hsound.tables.inOrder, hanswers⟩

/-- A person reads. -/
def readEvent : AuditEventInput Nat where
  serverTs := 1000
  clientTs := none
  event := lit "var.read"
  actorType := lit "user"
  actorUserId := some (lit "alice")
  actorKeyFingerprintHex := none
  actorApiTokenId := none
  actorAuthMethod := none
  targetUserId := none
  targetKeyFingerprintHex := none
  environmentId := some (lit "prod")
  variableId := none
  epoch := none
  version := none
  chainSeq := none
  payload := none

/-- The second chunk of seven rows fails, and its task with it. -/
def interruptedRun : List (StoreEvent Nat) :=
  [.append (lit "a0", readEvent) false, .taskEnds,
    .appendMany (List.replicate 7 (lit "a1", readEvent)) (some 1), .taskFails,
    .append (lit "a2", readEvent) false, .ensureHeadCurrent 1 none]

theorem audit_log_in_order_interrupted :
    (transitionsOf exampleCrypto naturals (fun _ => true) .empty interruptedRun).Forall fun t =>
      InOrder exampleCrypto t.after.tables ∧ Answers t := by
  rw [List.forall_iff_forall_mem]
  refine audit_log_in_order exampleCrypto naturals (fun _ => true) interruptedRun fun maxChunks failsAt hmem => ?_
  simp only [interruptedRun, List.mem_cons, reduceCtorEq, StoreEvent.ensureHeadCurrent.injEq, false_or,
    List.not_mem_nil, or_false] at hmem
  omega

end Maruhi.Audit
