import Maruhi.Audit.HeadCommitment
import Maruhi.Audit.HonestLog

/-!
# What the client rebuilds (`audit-reconcile.ts`)

The rows come back as they were hashed, and nothing is reported of an honest server's log.
-/

open Text Utf8 Framing JsonText

namespace Maruhi.Audit
open Chain Checkpoint

/-! ## The rows -/

section
variable {N : Type} {numerals : Numerals N}

theorem ascendingEvents_listEvents {rows : List AuditHeadRow} (h : Numbered rows) :
    ascendingEvents (listEvents numerals rows) = rows.map (toAuditEventValue numerals) := by
  let le : WireAuditEvent N → WireAuditEvent N → Prop := fun a b => a.columns.seq ≤ b.columns.seq
  have : Std.Total le := ⟨fun a b => le_total a.columns.seq b.columns.seq⟩
  have : IsTrans (WireAuditEvent N) le := ⟨fun _ _ _ => le_trans⟩
  have hperm : (ascendingEvents (listEvents numerals rows)).Perm (rows.map (toAuditEventValue numerals)) :=
    (List.perm_insertionSort le _).trans (rows.reverse_perm.map _)
  have hsorted : (ascendingEvents (listEvents numerals rows)).Pairwise le := List.pairwise_insertionSort le _
  have hrows : (rows.map (toAuditEventValue numerals)).Pairwise le := by
    rw [List.pairwise_map, List.pairwise_iff_getElem]
    intro i j hi hj hij
    have hseqi := h i rows[i] (List.getElem?_eq_getElem hi)
    have hseqj := h j rows[j] (List.getElem?_eq_getElem hj)
    show rows[i].seq ≤ rows[j].seq
    omega
  refine List.Perm.eq_of_pairwise (fun a b ha hb hab hba => ?_) hsorted hrows hperm
  obtain ⟨row, hrow, rfl⟩ := List.mem_map.mp (hperm.mem_iff.mp ha)
  obtain ⟨other, hother, rfl⟩ := List.mem_map.mp hb
  obtain ⟨i, hi⟩ := List.mem_iff_getElem?.mp hrow
  obtain ⟨j, hj⟩ := List.mem_iff_getElem?.mp hother
  have hseqs : row.seq = other.seq := le_antisymm hab hba
  have hij : i = j := by
    rw [h i row hi, h j other hj] at hseqs
    omega
  subst hij
  cases hi.symm.trans hj
  rfl

theorem auditPayloadWith_held (event : AuditEventInput N) : (Value.obj (auditPayloadWith event)).Held := by
  have hpayload : (Value.obj (event.payload.elim .nil JsonObject.members)).Held := by
    cases event.payload with
    | none => exact ⟨trivial, .nil⟩
    | some payload => exact payload.held
  unfold auditPayloadWith
  cases event.actorAuthMethod with
  | none => exact hpayload
  | some authMethod => exact Value.held_set hpayload trivial

theorem stringify_parsePayload (h : Lawful numerals) (event : AuditEventInput N) :
    (parsePayload numerals (storedPayload numerals event)).map (stringify numerals) = storedPayload numerals event := by
  have hheld := auditPayloadWith_held event
  unfold storedPayload parsePayload
  cases hpayload : auditPayloadWith event with
  | nil => rfl
  | cons key value rest =>
    rw [hpayload] at hheld
    dsimp only
    rw [Option.bind_some, parse_stringify h hheld]
    rfl

theorem toHeadRow_toAuditEventValue (h : Lawful numerals) {row : AuditHeadRow} {event : AuditEventInput N}
    (hrow : row.payloadText = storedPayload numerals event) :
    toHeadRow numerals (toAuditEventValue numerals row) = row := by
  unfold toHeadRow toAuditEventValue
  dsimp only
  rw [hrow, stringify_parsePayload h event, ← hrow]

theorem rebuilt_rows (h : Lawful numerals) {crypto : Crypto} {s : LogState} (hs : Sound numerals crypto s) :
    (ascendingEvents (listEvents numerals s.tables.rows)).map (toHeadRow numerals) = s.tables.rows := by
  rw [ascendingEvents_listEvents hs.numbered, List.map_map]
  refine (List.map_congr_left fun row hrow => ?_).trans (List.map_id _)
  obtain ⟨event, hevent⟩ := hs.written row hrow
  exact toHeadRow_toAuditEventValue h hevent

/-! ## The mirrors -/

theorem checkpointMirrorIndex_get? (events : List (WireAuditEvent N)) (chainSeq : Nat) :
    ((checkpointMirrorIndex events).get? chainSeq).getD [] =
      (events.filter fun event => event.columns.event = chainCheckpointed &&
        event.columns.chainSeq = some chainSeq).map fun event => event.columns.seq := by
  induction events using List.reverseRecOn with
  | nil => rfl
  | append_singleton events event ih =>
    unfold checkpointMirrorIndex at ih ⊢
    rw [List.foldl_append, List.filter_append, List.map_append, ← ih]
    generalize events.foldl _ _ = index
    simp only [List.foldl_cons, List.foldl_nil]
    cases hseq : event.columns.chainSeq with
    | none => simp [hseq]
    | some seq =>
      dsimp only
      split_ifs with hevent
      · by_cases heq : chainSeq = seq
        · subst heq
          simp [hevent, hseq]
        · rw [OrderedMap.get?_set_ne _ _ heq]
          simp [hevent, hseq, Ne.symm heq]
      · simp [hevent]

theorem mirror_listed {rows : List AuditHeadRow} {chainSeq seq : Nat} (h : MirroredAt rows chainSeq seq) :
    ((checkpointMirrorIndex (listEvents numerals rows)).get? chainSeq).getD [] = [seq] := by
  have hfilter : (listEvents numerals rows).filter (fun event => event.columns.event = chainCheckpointed &&
      event.columns.chainSeq = some chainSeq) = (mirrorsOf rows chainSeq).reverse.map (toAuditEventValue numerals) := by
    unfold listEvents mirrorsOf
    rw [List.filter_map, List.filter_reverse]
    rfl
  unfold MirroredAt at h
  rw [checkpointMirrorIndex_get?, hfilter, List.map_map, List.map_reverse]
  show ((mirrorsOf rows chainSeq).map fun row => row.seq).reverse = [seq]
  rw [h]
  rfl

end

/-! ## The column -/

section
variable {crypto : Crypto}

theorem encodeHex_isLowercaseHex {bytes : Bytes} (h : bytes.length = 32) :
    isLowercaseHexOfLength (encodeHex bytes) 64 = true := by
  simp [isLowercaseHexOfLength, encodeHex_length, h, decodeHex_encodeHex]

theorem encodeLengthPrefixed_isSome {fields : List LengthPrefixedField} (h : ∀ field ∈ fields, (fieldOk field).isSome) :
    (encodeLengthPrefixed fields).isSome := by
  unfold encodeLengthPrefixed
  rw [Option.isSome_map]
  induction fields with
  | nil => rfl
  | cons field rest ih =>
    obtain ⟨body, hbody⟩ := Option.isSome_iff_exists.mp (h field (by simp))
    obtain ⟨bodies, hbodies⟩ := Option.isSome_iff_exists.mp (ih fun field hfield => h field (by simp [hfield]))
    rw [List.mapM_cons, hbody, hbodies]
    rfl

theorem fieldOk_hex {s : JsString} (hs : s = [] ∨ isLowercaseHexOfLength s 64 = true) : (fieldOk (.str s)).isSome := by
  have hlength : (utf8Encode s).length ≤ 64 := by
    rcases hs with rfl | hs
    · decide
    · simp only [isLowercaseHexOfLength, Bool.and_eq_true, decide_eq_true_eq, Option.isSome_iff_exists] at hs
      obtain ⟨hlength, decoded, hdecoded⟩ := hs
      rw [length_utf8Encode_ascii s (decodeHex_ascii s decoded hdecoded), hlength]
  simp [fieldOk, fieldBody]
  omega

theorem auditRowFields_seq {row : AuditHeadRow} {fields : List LengthPrefixedField} (h : auditRowFields row = some fields) :
    isCountingNumber row.seq = true ∧ ¬ row.seq < 1 ∧ .num row.seq ∈ fields := by
  unfold auditRowFields at h
  split_ifs at h with hseq
  simp only [Option.bind_eq_bind, Option.bind_eq_some_iff] at h
  obtain ⟨_, _, _, _, _, _, _, _, h⟩ := h
  cases h
  simp only [Bool.or_eq_true, Bool.not_eq_true', decide_eq_true_eq, not_or, Bool.not_eq_false] at hseq
  exact ⟨hseq.1, hseq.2, by simp⟩

theorem nextHead_isSome (hsha : ∀ bytes, (crypto.sha256 bytes).length = 32) {head : JsString}
    (hhead : head = [] ∨ isLowercaseHexOfLength head 64 = true) {row : AuditHeadRow}
    (hrow : (computeAuditRowDigest crypto row).isSome) :
    ∃ next, nextHead crypto head row = some next ∧ isLowercaseHexOfLength next 64 = true := by
  obtain ⟨digest, hdigest⟩ := Option.isSome_iff_exists.mp hrow
  have hdigestRow := hdigest
  unfold computeAuditRowDigest at hdigestRow
  simp only [Option.bind_eq_bind, Option.bind_eq_some_iff] at hdigestRow
  obtain ⟨fields, hfields, bytes, hbytes, hhex⟩ := hdigestRow
  cases hhex
  obtain ⟨hcounting, hpositive, hmem⟩ := auditRowFields_seq hfields
  have hdigestHex := encodeHex_isLowercaseHex (hsha bytes)
  have hseq : (fieldOk (.num row.seq)).isSome := by
    unfold encodeLengthPrefixed at hbytes
    obtain ⟨bodies, hbodies, -⟩ := Option.map_eq_some_iff.mp hbytes
    obtain ⟨body, hbody⟩ := exists_of_mapM hbodies hmem
    rw [hbody]
    rfl
  have hencoded : (encodeLengthPrefixed [.str (suiteId ++ lit "/audit-head"), .str head, .num row.seq,
      .str (encodeHex (crypto.sha256 bytes))]).isSome := by
    apply encodeLengthPrefixed_isSome
    simp only [List.mem_cons, List.not_mem_nil, or_false, forall_eq_or_imp, forall_eq]
    exact ⟨by decide, fieldOk_hex hhead, hseq, fieldOk_hex (Or.inr hdigestHex)⟩
  obtain ⟨encoded, hencoded⟩ := Option.isSome_iff_exists.mp hencoded
  refine ⟨encodeHex (crypto.sha256 encoded), ?_, encodeHex_isLowercaseHex (hsha encoded)⟩
  have hprev : (decide (head ≠ []) && !isLowercaseHexOfLength head 64) = false := by
    rcases hhead with rfl | hhead
    · simp
    · simp [hhead]
  unfold nextHead
  rw [hdigest]
  simp only [Option.bind_eq_bind, Option.bind_some]
  unfold computeAuditHeadHash
  rw [if_neg (by decide), if_neg (by simp [hcounting]; omega), hprev, if_neg (by simp), if_neg (by simp [hdigestHex]),
    hencoded]
  rfl

theorem recomputeRows_isSome (hsha : ∀ bytes, (crypto.sha256 bytes).length = 32) {rows : List AuditHeadRow}
    (hrows : ∀ row ∈ rows, (computeAuditRowDigest crypto row).isSome) {column : RecomputedColumn}
    (hcolumn : column.finalHeadHex = [] ∨ isLowercaseHexOfLength column.finalHeadHex 64 = true) :
    (rows.foldlM (recomputeRow crypto) column).isSome := by
  induction rows generalizing column with
  | nil => rfl
  | cons row rest ih =>
    obtain ⟨next, hnext, hhex⟩ := nextHead_isSome hsha hcolumn (hrows row (by simp))
    rw [List.foldlM_cons]
    unfold recomputeRow
    rw [hnext]
    exact ih (fun row hrow => hrows row (by simp [hrow])) (Or.inr hhex)

theorem nextHead_ne_nil (hsha : ∀ bytes, (crypto.sha256 bytes).length = 32) {head next : JsString} {row : AuditHeadRow}
    (h : nextHead crypto head row = some next) : next ≠ [] := by
  rintro rfl
  exact advanceHead_ne_nil hsha h

theorem Chained.ne_nil (hsha : ∀ bytes, (crypto.sha256 bytes).length = 32) {head : JsString} {rows : List AuditHeadRow}
    {heads : List (Nat × JsString)} (h : Chained crypto head rows heads) : ∀ e ∈ heads, e.2 ≠ [] := by
  induction h with
  | nil => simp
  | cons hnext _ ih =>
    intro e he
    rcases List.mem_cons.mp he with rfl | he
    · exact nextHead_ne_nil hsha hnext
    · exact ih e he

theorem firstPosition_isSome {heads : List (Nat × JsString)} {e : Nat × JsString} (he : e ∈ heads) :
    ∃ position, firstPosition heads e.2 = some position := by
  have hfind : (heads.find? fun e' => e'.2 = e.2).isSome := by
    rw [List.find?_isSome]
    exact ⟨e, he, by simp⟩
  obtain ⟨found, hfound⟩ := Option.isSome_iff_exists.mp hfind
  exact ⟨found.1, by rw [firstPosition, hfound]; rfl⟩

theorem declared_position {N : Type} {numerals : Numerals N} (hsha : ∀ bytes, (crypto.sha256 bytes).length = 32)
    {maxChunks : Nat} {admits : Bool} {s : LogState} (hs : Sound numerals crypto s) {declared : JsString}
    (hdeclared : (auditHeadProgram crypto maxChunks admits s).2 = some declared) {rows : List AuditHeadRow}
    {heads : List (Nat × JsString)} (hrows : s.tables.rows <+: rows) (hheads : Chained crypto [] rows heads) :
    declared ≠ [] ∧ ∃ position, firstPosition heads declared = some position := by
  unfold auditHeadProgram at hdeclared
  split_ifs at hdeclared with hchain hstorage
  dsimp only at hdeclared
  split_ifs at hdeclared with hcurrent
  cases hdeclared
  obtain ⟨-, -, hchained⟩ := @extend_sound _ _ _ maxChunks _ hs
  have hchained := hchained hcurrent
  obtain ⟨later, rfl⟩ := hrows
  have htake : (s.tables.rows ++ later).take s.tables.rows.length = s.tables.rows := List.take_left
  have hpre := Chained.take (htake.symm ▸ hchained) hheads
  have hlength := hchained.length
  have hnonempty : s.tables.rows ≠ [] := hs.mirrored (by simpa using hchain)
  generalize (extendHeadHashes crypto maxChunks s.tables).1 = tables at hchained hpre hlength
  unfold currentHeadHex
  cases hlast : tables.heads.getLast? with
  | none =>
    rw [List.getLast?_eq_none_iff] at hlast
    rw [hlast, List.length_nil, eq_comm, List.length_eq_zero_iff] at hlength
    exact absurd hlength hnonempty
  | some e =>
    have hmem : e ∈ tables.heads := List.mem_of_getLast? hlast
    refine ⟨hchained.ne_nil hsha e hmem, ?_⟩
    rw [hpre] at hmem
    exact firstPosition_isSome (List.mem_of_mem_take hmem)

end

/-! ## Nothing is reported -/

section
variable {N : Type} {numerals : Numerals N} {crypto : Crypto}

theorem checkpointed_later {verified listed : LogState} (hverified : Sound numerals crypto verified)
    (hlisted : Sound numerals crypto listed) (hextends : Extends verified listed) {column : RecomputedColumn}
    (hcolumn : recomputeColumn crypto listed.tables.rows = some column) :
    ∃ prev last, Checkpointed listed.tables.rows column.positions.get? verified.chain prev last := by
  obtain ⟨heads, hheads, -, hpositions⟩ := recomputeColumn_spec hcolumn
  obtain ⟨k, -, hstored⟩ := hlisted.column
  obtain ⟨prev, last, hcheckpointed, -⟩ := hverified.checkpoints
  have hpre : verified.tables.heads <+: heads := by
    refine hextends.heads.trans ?_
    rw [hstored.take hheads]
    exact List.take_prefix k heads
  refine ⟨prev, last, hcheckpointed.mono (fun entry hentry seq hmirror => ?_) fun head position hposition => ?_⟩
  · have hmem : entry.seq ∈ verified.chain.map fun entry => entry.seq := List.mem_map_of_mem hentry
    rw [hverified.seqs, List.mem_range'_1] at hmem
    exact hextends.mirrors entry.seq (by omega) seq hmirror
  · rw [hpositions]
    exact positions_mono hpre head position hposition

theorem run_append (maxChunks : Nat) (s : LogState) (events later : List (LogEvent N)) :
    s.run numerals crypto maxChunks (events ++ later) =
      (s.run numerals crypto maxChunks events).run numerals crypto maxChunks later := List.foldl_append ..

/-- A log reconciles at any time after the chain was verified and the head was served. -/
theorem honest_log_reconciles (hnumerals : Lawful numerals) (hsha : ∀ bytes, (crypto.sha256 bytes).length = 32)
    (maxChunks : Nat) (toVerified toDeclared events : List (LogEvent N)) (admits : Bool) (declared : JsString)
    (hverified : toVerified <+: events) (hlater : toDeclared ++ [.readHead admits] <+: events)
    (hdeclared : (auditHeadProgram crypto maxChunks admits
      (LogState.start.run numerals crypto maxChunks toDeclared)).2 = some declared) :
    let verified := LogState.start.run numerals crypto maxChunks toVerified
    let log := LogState.start.run numerals crypto maxChunks events
    let rows := listEvents numerals log.tables.rows
    let headRows := (ascendingEvents rows).map (toHeadRow numerals)
    gapViolations ((ascendingEvents rows).map fun row => row.columns.seq) = [] ∧
    ((∀ row ∈ log.tables.rows, (computeAuditRowDigest crypto row).isSome) → (recomputeColumn crypto headRows).isSome) ∧
    ∀ column, recomputeColumn crypto headRows = some column →
      checkpointViolations verified.chain column.positions (checkpointMirrorIndex rows) = [] ∧
      declaredHeadViolations declared column = [] ∧
      (∃ position, column.positions.get? declared = some position) ∧
      ∃ prev last, Checkpointed log.tables.rows column.positions.get? verified.chain prev last := by
  intro verified log rows headRows
  obtain ⟨hsoundVerified, -⟩ := @run_sound _ numerals crypto maxChunks _ sound_start toVerified
  obtain ⟨hsoundDeclared, -⟩ := @run_sound _ numerals crypto maxChunks _ sound_start toDeclared
  obtain ⟨hsound, -⟩ := @run_sound _ numerals crypto maxChunks _ sound_start events
  have hextends : Extends verified log := by
    obtain ⟨rest, rfl⟩ := hverified
    show Extends _ (LogState.start.run numerals crypto maxChunks (toVerified ++ rest))
    rw [run_append]
    exact (run_sound hsoundVerified rest).2
  have hrowsDeclared : (LogState.start.run numerals crypto maxChunks toDeclared).tables.rows <+: log.tables.rows := by
    obtain ⟨rest, rfl⟩ := (List.prefix_append _ _).trans hlater
    show _ <+: (LogState.start.run numerals crypto maxChunks (toDeclared ++ rest)).tables.rows
    rw [run_append]
    exact (run_sound hsoundDeclared rest).2.rows
  have hheadRows : headRows = log.tables.rows := rebuilt_rows hnumerals hsound
  have hseqs : (ascendingEvents rows).map (fun row => row.columns.seq) = log.tables.rows.map fun row => row.seq := by
    show (ascendingEvents (listEvents numerals log.tables.rows)).map (fun row => row.columns.seq) = _
    rw [ascendingEvents_listEvents hsound.numbered, List.map_map]
    rfl
  rw [hseqs, hheadRows]
  refine ⟨gapViolations_numbered hsound.numbered, fun hrows => ?_, fun column hcolumn => ?_⟩
  · exact recomputeRows_isSome hsha hrows (Or.inl rfl)
  · obtain ⟨prev, last, hcheckpointed⟩ := checkpointed_later hsoundVerified hsound hextends hcolumn
    obtain ⟨heads, hheads, -, hpositions⟩ := recomputeColumn_spec hcolumn
    obtain ⟨hne, position, hposition⟩ := declared_position hsha hsoundDeclared hdeclared hrowsDeclared hheads
    have hget : column.positions.get? declared = some position := (hpositions declared).trans hposition
    refine ⟨?_, ?_, ⟨position, hget⟩, prev, last, hcheckpointed⟩
    · obtain ⟨n, hscan, -⟩ := hcheckpointed.scan fun chainSeq seq hmirror => mirror_listed hmirror
      unfold checkpointViolations
      rw [hscan]
    · unfold declaredHeadViolations
      rw [if_neg hne, if_pos ((OrderedMap.has_iff _ _).mpr ⟨position, hget⟩)]

end

/-! ## A log with one notarization -/

def auditCrypto : Crypto where
  sha256 := Sha256.sha256
  ed25519Verify _ _ _ := false

def auditEvent (event : String) (chainSeq : Option Nat) (payload : Option (JsonObject Nat)) : AuditEventInput Nat where
  serverTs := 1700000000000
  clientTs := none
  event := lit event
  actorType := lit "user"
  actorUserId := some (lit "alice")
  actorKeyFingerprintHex := none
  actorApiTokenId := none
  actorAuthMethod := some (lit "github")
  targetUserId := none
  targetKeyFingerprintHex := none
  environmentId := none
  variableId := none
  epoch := none
  version := none
  chainSeq := chainSeq
  payload := payload

def auditEntry (seq : Nat) (operation : ProposableOperation) : ChainEntry where
  suite := suiteId
  seq := seq
  prevHashHex := []
  operation := .direct operation
  actor := ⟨lit "alice", []⟩
  timestampMs := 1700000000000
  signatureHex := []

def auditGenesis : LogEvent Nat :=
  .acceptEntry ⟨auditEntry 1 (.genesis ⟨[], []⟩), rfl, ⟨[(lit "row-1", auditEvent "chain.genesis" (some 1) none)],
    by decide⟩, by simp⟩

def auditSync : LogEvent Nat :=
  .append ⟨[(lit "row-2", auditEvent "sync.completed" none (some ⟨.cons (lit "count") (.num 2) .nil, by
    simp [Value.Held, Members.Held, Members.keys]⟩))], by decide⟩

/-- The head after the first two rows. -/
def auditedHead : JsString := lit "f8205a832b05533c0bb558262dd629d3c2d456b38f6cd017de09ecc1b82df8b1"

def auditCheckpoint : LogEvent Nat :=
  .acceptCheckpoint true none ⟨auditEntry 2 (.checkpoint ⟨[], auditedHead⟩), auditedHead, rfl,
    (lit "row-3", auditEvent "chain.checkpointed" (some 2) none), rfl, rfl⟩ ⟨[], by simp⟩

def auditRun : List (LogEvent Nat) := [auditGenesis, auditSync, .readHead true, auditCheckpoint, auditSync]

set_option maxRecDepth 100000 in
/-- The checkpoint is accepted, the column is recomputed, and the log reconciles. -/
theorem honest_log_example :
    (LogState.start.run naturals auditCrypto 4 auditRun).chain.length = 2 ∧
    ∃ column, recomputeColumn auditCrypto ((ascendingEvents (listEvents naturals
        (LogState.start.run naturals auditCrypto 4 auditRun).tables.rows)).map (toHeadRow naturals)) = some column ∧
      checkpointViolations (LogState.start.run naturals auditCrypto 4 (auditRun.take 4)).chain column.positions
        (checkpointMirrorIndex (listEvents naturals (LogState.start.run naturals auditCrypto 4 auditRun).tables.rows)) = [] ∧
      declaredHeadViolations auditedHead column = [] := by
  have hdeclared : (auditHeadProgram auditCrypto 4 true
      (LogState.start.run naturals auditCrypto 4 [auditGenesis, auditSync])).2 = some auditedHead := by decide +kernel
  have hdigests : ∀ row ∈ (LogState.start.run naturals auditCrypto 4 auditRun).tables.rows,
      (computeAuditRowDigest auditCrypto row).isSome := by decide +kernel
  obtain ⟨-, hrecomputed, hreconciled⟩ := honest_log_reconciles naturals_lawful Sha256.length_sha256 4 (auditRun.take 4)
    [auditGenesis, auditSync] auditRun true auditedHead (List.take_prefix _ _) ⟨[auditCheckpoint, auditSync], rfl⟩ hdeclared
  obtain ⟨column, hcolumn⟩ := Option.isSome_iff_exists.mp (hrecomputed hdigests)
  obtain ⟨hcheckpoints, hhead, -⟩ := hreconciled column hcolumn
  exact ⟨by decide +kernel, column, hcolumn, hcheckpoints, hhead⟩

end Maruhi.Audit
