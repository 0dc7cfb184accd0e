import Maruhi.Checkpoint.Digest
import Maruhi.Lib.JsonText

/-!
# The audit head (`audit-head.ts`, `audit-store.ts`)

Every row has a digest, and a head that chains it to the rows before it. The store keeps the heads in a column
that it extends when they are read.
-/

open Text Utf8 JsonText

namespace Maruhi.Audit
open Chain Checkpoint

/-- The columns of `audit_events` besides the payload. -/
structure AuditColumns where
  seq : Nat
  rowId : Option JsString
  serverTs : Nat
  clientTs : Option Nat
  event : JsString
  actorType : JsString
  actorUserId : Option JsString
  actorKeyFingerprintHex : Option JsString
  actorApiTokenId : Option JsString
  targetUserId : Option JsString
  targetKeyFingerprintHex : Option JsString
  environmentId : Option JsString
  variableId : Option JsString
  epoch : Option Nat
  version : Option Nat
  chainSeq : Option Nat
  deriving DecidableEq

structure AuditHeadRow extends AuditColumns where
  payloadText : Option JsString
  deriving DecidableEq

/-! ## The hashes -/

def isCountingNumber (n : Nat) : Bool := n ≤ Json.maxSafeInteger

/-- `NULL` is one byte, and no value starts with it. -/
def taggedField (value : Option JsString) : LengthPrefixedField :=
  .bytes (value.elim [0] fun s => 1 :: utf8Encode s)

/-- None where the number is refused. -/
def taggedNumberField (value : Option Nat) : Option LengthPrefixedField :=
  match value with
  | none => some (taggedField none)
  | some n => if isCountingNumber n then some (taggedField (some (decimal n))) else none

def auditRowFields (row : AuditHeadRow) : Option (List LengthPrefixedField) := do
  if !isCountingNumber row.seq || row.seq < 1 then none
  else if !isCountingNumber row.serverTs then none
  else
    let clientTs ← taggedNumberField row.clientTs
    let epoch ← taggedNumberField row.epoch
    let version ← taggedNumberField row.version
    let chainSeq ← taggedNumberField row.chainSeq
    pure [.num row.seq, taggedField row.rowId, .num row.serverTs, clientTs, .str row.event, .str row.actorType,
      taggedField row.actorUserId, taggedField row.actorKeyFingerprintHex, taggedField row.actorApiTokenId,
      taggedField row.targetUserId, taggedField row.targetKeyFingerprintHex, taggedField row.environmentId,
      taggedField row.variableId, epoch, version, chainSeq, taggedField row.payloadText]

/-- None where the row is refused. -/
def computeAuditRowDigest (crypto : Crypto) (row : AuditHeadRow) : Option JsString := do
  let fields ← auditRowFields row
  let bytes ← encodeLengthPrefixed fields
  pure (encodeHex (crypto.sha256 bytes))

def computeAuditHeadHash (crypto : Crypto) (suite prevHeadHashHex : JsString) (seq : Nat) (rowDigestHex : JsString) :
    Option JsString :=
  if suite.length = 0 then none
  else if !isCountingNumber seq || seq < 1 then none
  else if prevHeadHashHex ≠ [] && !isLowercaseHexOfLength prevHeadHashHex 64 then none
  else if !isLowercaseHexOfLength rowDigestHex 64 then none
  else (encodeLengthPrefixed [.str (suite ++ lit "/audit-head"), .str prevHeadHashHex, .num seq, .str rowDigestHex]).map
    fun bytes => encodeHex (crypto.sha256 bytes)

/-- The head after one more row. -/
def nextHead (crypto : Crypto) (head : JsString) (row : AuditHeadRow) : Option JsString := do
  let digest ← computeAuditRowDigest crypto row
  computeAuditHeadHash crypto suiteId head row.seq digest

/-! ## The store -/

section
variable {N : Type}

/-- An object as the language holds it. -/
structure JsonObject (N : Type) where
  members : Members N
  held : (Value.obj members).Held

structure AuditEventInput (N : Type) where
  serverTs : Nat
  clientTs : Option Nat
  event : JsString
  actorType : JsString
  actorUserId : Option JsString
  actorKeyFingerprintHex : Option JsString
  actorApiTokenId : Option JsString
  actorAuthMethod : Option JsString
  targetUserId : Option JsString
  targetKeyFingerprintHex : Option JsString
  environmentId : Option JsString
  variableId : Option JsString
  epoch : Option Nat
  version : Option Nat
  chainSeq : Option Nat
  payload : Option (JsonObject N)

/-- The event's payload, and the method a session actor signed in by. -/
def auditPayloadWith (event : AuditEventInput N) : Members N :=
  let payload := event.payload.elim .nil JsonObject.members
  event.actorAuthMethod.elim payload fun authMethod => payload.set (lit "authMethod") (.str authMethod)

def storedPayload (numerals : Numerals N) (event : AuditEventInput N) : Option JsString :=
  match auditPayloadWith event with
  | .nil => none
  | payload => some (stringify numerals (.obj payload))

/-- `chain_seq` is for the rows of the chain. -/
def assertChainSeqInvariant (event : AuditEventInput N) : Bool :=
  event.chainSeq.isNone || (lit "chain.").isPrefixOf event.event

/-- `audit_events` and `audit_head_hashes`, each by its seq. -/
structure AuditTables where
  rows : List AuditHeadRow
  heads : List (Nat × JsString)

def nextSeq (rows : List AuditHeadRow) : Nat := ((rows.map fun row => row.seq).max?).getD 0 + 1

/-- The row of an event under its seq and its random id. -/
def auditRow (numerals : Numerals N) (seq : Nat) (rowId : JsString) (event : AuditEventInput N) : AuditHeadRow where
  seq := seq
  rowId := some rowId
  serverTs := event.serverTs
  clientTs := event.clientTs
  event := event.event
  actorType := event.actorType
  actorUserId := event.actorUserId
  actorKeyFingerprintHex := event.actorKeyFingerprintHex
  actorApiTokenId := event.actorApiTokenId
  targetUserId := event.targetUserId
  targetKeyFingerprintHex := event.targetKeyFingerprintHex
  environmentId := event.environmentId
  variableId := event.variableId
  epoch := event.epoch
  version := event.version
  chainSeq := event.chainSeq
  payloadText := storedPayload numerals event

def appendRow (numerals : Numerals N) (rows : List AuditHeadRow) (event : JsString × AuditEventInput N) :
    List AuditHeadRow :=
  rows ++ [auditRow numerals (nextSeq rows) event.1 event.2]

/-- `appendManySync`: none where an event throws, and then nothing is written. -/
def appendMany (numerals : Numerals N) (rows : List AuditHeadRow) (events : List (JsString × AuditEventInput N)) :
    Option (List AuditHeadRow) :=
  if events.all fun event => assertChainSeqInvariant event.2 then some (events.foldl (appendRow numerals) rows) else none

end

/-! ## The column -/

/-- `HEAD_CHUNK_ROWS` -/
def headChunkRows : Nat := 50

structure ChunkState where
  hashedUpTo : Nat
  head : JsString
  inserts : List (Nat × JsString)

/-- One row of a chunk: none on a gap, or where the row is refused. -/
def hashRow (crypto : Crypto) (state : ChunkState) (row : AuditHeadRow) : Option ChunkState :=
  if row.seq ≠ state.hashedUpTo + 1 then none
  else (nextHead crypto state.head row).map fun head => ⟨row.seq, head, state.inserts ++ [(row.seq, head)]⟩

/-- The next chunk's state, and whether it reached the end. -/
def deriveChunk (crypto : Crypto) (rows : List AuditHeadRow) (hashedUpTo : Nat) (head : JsString) :
    Option (ChunkState × Bool) :=
  let chunk := (rows.filter fun row => hashedUpTo < row.seq).take headChunkRows
  if chunk.isEmpty then some (⟨hashedUpTo, head, []⟩, true)
  else (chunk.foldlM (hashRow crypto) ⟨hashedUpTo, head, []⟩).map fun state => (state, chunk.length < headChunkRows)

/-- `defect` is a fault of the log itself. -/
inductive HeadExtension
  | current
  | moreRemains
  | defect
  deriving DecidableEq, Repr

/-- The loop over the chunks. A chunk that is complete is stored. -/
def extendChunks (crypto : Crypto) (rows : List AuditHeadRow) :
    Nat → Nat → JsString → List (Nat × JsString) → List (Nat × JsString) × HeadExtension
  | 0, hashedUpTo, _, heads =>
    (heads, if rows.any fun row => hashedUpTo < row.seq then .moreRemains else .current)
  | chunks + 1, hashedUpTo, head, heads =>
    match deriveChunk crypto rows hashedUpTo head with
    | none => (heads, .defect)
    | some (state, done) =>
      let heads' := heads ++ state.inserts
      if done then (heads', .current) else extendChunks crypto rows chunks state.hashedUpTo state.head heads'

attribute [grind =] extendChunks

def extendHeadHashes (crypto : Crypto) (maxChunks : Nat) (tables : AuditTables) : AuditTables × HeadExtension :=
  let tail := tables.heads.getLast?.getD (0, [])
  let (heads, outcome) := extendChunks crypto tables.rows maxChunks tail.1 tail.2 tables.heads
  ({ tables with heads := heads }, outcome)

def headColumnBehind (tables : AuditTables) : Bool :=
  tables.rows.any fun row => ((tables.heads.map Prod.fst).max?).getD 0 < row.seq

def currentHeadHex (tables : AuditTables) : JsString := (tables.heads.getLast?.map Prod.snd).getD []

/-- The index on the hash lists equal hashes by their seq. -/
def headPosition (tables : AuditTables) (headHashHex : JsString) : Option Nat :=
  (tables.heads.find? fun e => e.2 = headHashHex).map Prod.fst

def chainCheckpointed : JsString := lit "chain.checkpointed"

/-- `MAX(seq)` of the checkpoint mirrors. -/
def latestCheckpointMirrorSeq (tables : AuditTables) : Option Nat :=
  ((tables.rows.filter fun row => row.event = chainCheckpointed).map fun row => row.seq).max?

/-! ## Rows are numbered, heads chain them -/

/-- The seqs are 1 to n. -/
def Numbered (rows : List AuditHeadRow) : Prop := ∀ i row, rows[i]? = some row → row.seq = i + 1

theorem numbered_nil : Numbered [] := by
  intro i row h
  simp at h

theorem Numbered.mem {rows : List AuditHeadRow} (h : Numbered rows) {row : AuditHeadRow} (hrow : row ∈ rows) :
    1 ≤ row.seq ∧ row.seq ≤ rows.length := by
  obtain ⟨i, hi⟩ := List.mem_iff_getElem?.mp hrow
  obtain ⟨hlt, -⟩ := List.getElem?_eq_some_iff.mp hi
  rw [h i row hi]
  omega

theorem Numbered.append {rows : List AuditHeadRow} (h : Numbered rows) {row : AuditHeadRow}
    (hseq : row.seq = rows.length + 1) : Numbered (rows ++ [row]) := by
  intro i r hr
  rw [List.getElem?_append] at hr
  split_ifs at hr with hi
  · exact h i r hr
  · obtain ⟨hlt, heq⟩ := List.getElem?_eq_some_iff.mp hr
    simp only [List.length_singleton] at hlt
    simp only [List.getElem_singleton] at heq
    rw [← heq, hseq]
    omega

theorem Numbered.nextSeq {rows : List AuditHeadRow} (h : Numbered rows) : nextSeq rows = rows.length + 1 := by
  unfold Audit.nextSeq
  cases hmax : (rows.map fun row => row.seq).max? with
  | none =>
    rw [List.max?_eq_none_iff, List.map_eq_nil_iff] at hmax
    rw [hmax]
    rfl
  | some n =>
    rw [List.max?_eq_some_iff] at hmax
    obtain ⟨hmem, hle⟩ := hmax
    obtain ⟨row, hrow, rfl⟩ := List.mem_map.mp hmem
    have hlast := h.mem hrow
    have hlength : 0 < rows.length := List.length_pos_of_mem hrow
    have hget : rows[rows.length - 1]? = some (rows[rows.length - 1]) := List.getElem?_eq_getElem (by omega)
    have hseq := h _ _ hget
    have := hle _ (List.mem_map.mpr ⟨_, List.getElem_mem (by omega : rows.length - 1 < rows.length), rfl⟩)
    rw [Option.getD_some]
    omega

theorem Numbered.filter_after {rows : List AuditHeadRow} (h : Numbered rows) (k : Nat) :
    (rows.filter fun row => k < row.seq) = rows.drop k := by
  conv_lhs => rw [← List.take_append_drop k rows]
  have htake : ((rows.take k).filter fun row => decide (k < row.seq)) = [] := by
    rw [List.filter_eq_nil_iff]
    intro row hrow
    obtain ⟨i, hi⟩ := List.mem_iff_getElem?.mp hrow
    rw [List.getElem?_take] at hi
    split_ifs at hi with hlt
    rw [h i row hi]
    simp only [decide_eq_true_eq, not_lt]
    omega
  have hdrop : ((rows.drop k).filter fun row => decide (k < row.seq)) = rows.drop k := by
    rw [List.filter_eq_self]
    intro row hrow
    obtain ⟨i, hi⟩ := List.mem_iff_getElem?.mp hrow
    rw [List.getElem?_drop] at hi
    rw [h _ row hi, decide_eq_true_eq]
    omega
  rw [List.filter_append, htake, hdrop, List.nil_append]

/-- The heads of rows, from the head before them. -/
inductive Chained (crypto : Crypto) : JsString → List AuditHeadRow → List (Nat × JsString) → Prop
  | nil (head : JsString) : Chained crypto head [] []
  | cons {head next : JsString} {row : AuditHeadRow} {rows : List AuditHeadRow} {heads : List (Nat × JsString)}
      (hnext : nextHead crypto head row = some next) (hrest : Chained crypto next rows heads) :
      Chained crypto head (row :: rows) ((row.seq, next) :: heads)

/-- The head at the end of a column. -/
def finalHead (head : JsString) (heads : List (Nat × JsString)) : JsString := (heads.getLast?.map Prod.snd).getD head

theorem finalHead_cons (head : JsString) (e : Nat × JsString) (heads : List (Nat × JsString)) :
    finalHead head (e :: heads) = finalHead e.2 heads := by
  unfold finalHead
  cases heads with
  | nil => rfl
  | cons e' rest => rw [List.getLast?_cons_cons]; cases h : (e' :: rest).getLast? <;> simp_all

theorem finalHead_append (head : JsString) (heads heads' : List (Nat × JsString)) :
    finalHead head (heads ++ heads') = finalHead (finalHead head heads) heads' := by
  unfold finalHead
  rw [List.getLast?_append]
  cases heads'.getLast? <;> simp

variable {crypto : Crypto}

theorem Chained.append {head : JsString} {rows rows' : List AuditHeadRow} {heads heads' : List (Nat × JsString)}
    (h : Chained crypto head rows heads) (h' : Chained crypto (finalHead head heads) rows' heads') :
    Chained crypto head (rows ++ rows') (heads ++ heads') := by
  induction h with
  | nil head => exact h'
  | cons hnext _ ih =>
    rw [finalHead_cons] at h'
    exact .cons hnext (ih h')

theorem Chained.length {head : JsString} {rows : List AuditHeadRow} {heads : List (Nat × JsString)}
    (h : Chained crypto head rows heads) : heads.length = rows.length := by
  induction h with
  | nil => rfl
  | cons _ _ ih => rw [List.length_cons, List.length_cons, ih]

theorem Chained.take {head : JsString} {rows : List AuditHeadRow} {heads heads' : List (Nat × JsString)} {k : Nat}
    (h : Chained crypto head (rows.take k) heads) (h' : Chained crypto head rows heads') : heads = heads'.take k := by
  induction h' generalizing k heads with
  | nil head =>
    rw [List.take_nil] at h
    cases h
    simp
  | cons hnext _ ih =>
    cases k with
    | zero =>
      rw [List.take_zero] at h
      cases h
      rfl
    | succ k =>
      rw [List.take_succ_cons] at h
      cases h with
      | cons hnext' hrest =>
        cases hnext.symm.trans hnext'
        rw [List.take_succ_cons, ih hrest]

/-! ## The column grows along the rows -/

theorem hashRow_chained {state state' : ChunkState} {row : AuditHeadRow} (h : hashRow crypto state row = some state') :
    row.seq = state.hashedUpTo + 1 ∧ state'.hashedUpTo = row.seq ∧
      ∃ next, nextHead crypto state.head row = some next ∧ state'.head = next ∧
        state'.inserts = state.inserts ++ [(row.seq, next)] := by
  unfold hashRow at h
  split_ifs at h with hseq
  obtain ⟨next, hnext, rfl⟩ := Option.map_eq_some_iff.mp h
  exact ⟨not_not.mp hseq, rfl, next, hnext, rfl, rfl⟩

theorem hashRows_chained {rows : List AuditHeadRow} {state state' : ChunkState}
    (h : rows.foldlM (hashRow crypto) state = some state') :
    state'.hashedUpTo = state.hashedUpTo + rows.length ∧
      ∃ heads, Chained crypto state.head rows heads ∧ state'.inserts = state.inserts ++ heads ∧
        state'.head = finalHead state.head heads := by
  induction rows generalizing state with
  | nil =>
    cases h
    exact ⟨rfl, [], .nil _, by simp, rfl⟩
  | cons row rest ih =>
    rw [List.foldlM_cons] at h
    obtain ⟨mid, hmid, h⟩ := Option.bind_eq_some_iff.mp h
    obtain ⟨hseq, hup, next, hnext, hhead, hinserts⟩ := hashRow_chained hmid
    obtain ⟨hupTo, heads, hchained, hins, hfinal⟩ := ih h
    rw [hhead] at hchained hfinal
    refine ⟨by rw [hupTo, hup, hseq, List.length_cons]; omega, (row.seq, next) :: heads, .cons hnext hchained, ?_, ?_⟩
    · rw [hins, hinserts, List.append_assoc, List.singleton_append]
    · rw [hfinal, finalHead_cons]

theorem deriveChunk_chained {rows : List AuditHeadRow} (hrows : Numbered rows) {k : Nat} {head : JsString}
    {state : ChunkState} {done : Bool} (h : deriveChunk crypto rows k head = some (state, done)) :
    ∃ n heads, Chained crypto head ((rows.drop k).take n) heads ∧ state.inserts = heads ∧
      state.head = finalHead head heads ∧ state.hashedUpTo = k + ((rows.drop k).take n).length ∧
      (done = true → (rows.drop k).take n = rows.drop k) := by
  unfold deriveChunk at h
  rw [hrows.filter_after] at h
  dsimp only at h
  split_ifs at h with hempty
  · cases h
    rw [List.isEmpty_iff] at hempty
    refine ⟨headChunkRows, [], by rw [hempty]; exact .nil head, rfl, rfl, by rw [hempty]; rfl, fun _ => ?_⟩
    rcases List.take_eq_nil_iff.mp hempty with hzero | hnil
    · cases hzero
    · rw [hnil, List.take_nil]
  · obtain ⟨state', hfold, heq⟩ := Option.map_eq_some_iff.mp h
    cases heq
    obtain ⟨hup, heads, hchained, hins, hhead⟩ := hashRows_chained hfold
    refine ⟨headChunkRows, heads, hchained, by simpa using hins, hhead, hup, fun hdone => ?_⟩
    simp only [decide_eq_true_eq, List.length_take] at hdone
    exact List.take_of_length_le (by omega)

theorem extendChunks_chained {rows : List AuditHeadRow} (hrows : Numbered rows) (chunks : Nat) {k : Nat}
    {head : JsString} {heads : List (Nat × JsString)} (hk : k ≤ rows.length)
    (h : Chained crypto [] (rows.take k) heads) (hhead : head = finalHead [] heads) :
    ∃ k', k ≤ k' ∧ k' ≤ rows.length ∧
      Chained crypto [] (rows.take k') (extendChunks crypto rows chunks k head heads).1 ∧
      ((extendChunks crypto rows chunks k head heads).2 = .current → k' = rows.length) := by
  induction chunks generalizing k head heads with
  | zero =>
    refine ⟨k, le_refl k, hk, h, fun hcurrent => ?_⟩
    unfold extendChunks at hcurrent
    dsimp only at hcurrent
    split_ifs at hcurrent with hany
    by_contra hne
    apply hany
    rw [List.any_eq_true]
    have hlt : k < rows.length := by omega
    refine ⟨rows[k], List.getElem_mem hlt, ?_⟩
    rw [hrows k rows[k] (List.getElem?_eq_getElem hlt)]
    simp
  | succ chunks ih =>
    unfold extendChunks
    cases hchunk : deriveChunk crypto rows k head with
    | none => exact ⟨k, le_refl k, hk, h, by simp⟩
    | some out =>
      obtain ⟨state, done⟩ := out
      obtain ⟨n, heads', hchained, hins, hfinal, hup, hdone⟩ := deriveChunk_chained hrows hchunk
      rw [hhead] at hchained hfinal
      have hjoined := h.append hchained
      have htake : rows.take k ++ (rows.drop k).take n = rows.take (k + ((rows.drop k).take n).length) := by
        rw [List.take_add, List.length_take, ← List.take_eq_take_min]
      have hle : k + ((rows.drop k).take n).length ≤ rows.length := by
        rw [List.length_take, List.length_drop]
        omega
      rw [htake, ← hup, ← hins] at hjoined
      rw [← hup] at hle
      cases done with
      | true =>
        refine ⟨state.hashedUpTo, by omega, hle, hjoined, fun _ => ?_⟩
        rw [hup, hdone rfl, List.length_drop]
        omega
      | false =>
        have hhead' : state.head = finalHead [] (heads ++ state.inserts) := by
          rw [hfinal, hins, finalHead_append]
        obtain ⟨k', hkk', hk'le, hch, hcur⟩ := ih hle hjoined hhead'
        exact ⟨k', by omega, hk'le, hch, hcur⟩

end Maruhi.Audit
