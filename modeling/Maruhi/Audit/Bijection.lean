import Maruhi.Audit.Ahead
import Maruhi.Audit.Completion
import Maruhi.Lib.Matching

/-!
# A bijection test

On a chain that the client can map the verification passes exactly the rows that are, in some order, the rows of the chain.
The rows of an honest extension are reported as not yet verified, and nothing else.
-/

open Text Matching

namespace Maruhi.Audit
open Chain

/-! ## One row -/

/-- The row is the expected one but for its id, its seq and its time, which are the store's own. -/
structure Agrees (expected : AuditEventRecord) (row : WireMirrorRow) : Prop where
  event : row.event = eventText expected.event
  clientTs : row.clientTs = expected.clientTs.map fun n => JsonNumber.int n
  actorType : row.actorType = expected.actorType
  actorUserId : row.actorUserId = expected.actorUserId
  actorKeyFingerprintHex : row.actorKeyFingerprintHex = expected.actorKeyFingerprintHex
  actorApiTokenId : row.actorApiTokenId = none
  targetUserId : row.targetUserId = expected.targetUserId
  targetKeyFingerprintHex : row.targetKeyFingerprintHex = expected.targetKeyFingerprintHex
  environmentId : row.environmentId = expected.environmentId
  variableId : row.variableId = expected.variableId
  epoch : row.epoch = expected.epoch
  version : row.version = none
  payload : Option.Rel Same expected.payload row.payload
  chainSeq : seqOf row = expected.chainSeq

def withTs (ts : Nat) (row : AuditEventRecord) : AuditEventRecord := { row with serverTs := ts }

/-- The client maps the entry to these rows, whatever the time. -/
structure Maps (entry : ChainEntry) (index : ProposalIndex) (expected : List AuditEventRecord) : Prop where
  mapped : ∀ ts, expectedRows entry ts index = .ok (expected.map (withTs ts))
  events : ∀ row ∈ expected, row.event ∈ mirrorEventNames
  distinct : (expected.map AuditEventRecord.event).Nodup
  chainSeq : ∀ row ∈ expected, row.chainSeq = some entry.seq
  length : expected.length = 1 ∨ expected.length = 2

set_option maxRecDepth 100000 in
theorem chainMirrorEventTexts_nodup : chainMirrorEventTexts.Nodup := by decide +kernel

theorem eventText_inj {a b : AuditEventName} (ha : a ∈ mirrorEventNames) (hb : b ∈ mirrorEventNames)
    (h : eventText a = eventText b) : a = b :=
  List.inj_on_of_nodup_map chainMirrorEventTexts_nodup ha hb h

theorem Maps.same {entry : ChainEntry} {index : ProposalIndex} {expected : List AuditEventRecord}
    (h : Maps entry index expected) {a b : AuditEventRecord} (ha : a ∈ expected) (hb : b ∈ expected)
    (heq : eventText a.event = eventText b.event) : a = b :=
  List.inj_on_of_nodup_map h.distinct ha hb (eventText_inj (h.events a ha) (h.events b hb) heq)

section Entry
variable {entry : ChainEntry} {index : ProposalIndex} {expected : List AuditEventRecord} (h : Maps entry index expected)
include h

end Entry

/-! ## The entries of a chain -/

theorem tail_event_mem {op : ProposableOperation} {subject : MirrorSubject} {tail : MirrorTail}
    (h : proposableTailOf op subject = .ok tail) : tail.event ∈ mirrorEventNames := by
  cases op with
  | addDevice p =>
    simp only [proposableTailOf] at h
    split at h <;> cases h
    simp [mirrorEventNames]
  | _ => cases h; simp [mirrorEventNames]

section Mirrored
variable {crypto : Crypto} {ts : Nat} {s : MutableChainState} {entry : ChainEntry} {applied : Option AppliedOperation}
  {rows : List AuditEventRecord} (h : Mirrored crypto ts s entry applied rows)
include h

theorem Mirrored.withTs (ts' : Nat) : Mirrored crypto ts' s entry applied (rows.map (Audit.withTs ts')) := by
  cases h with
  | direct op tail hop htail => exact .direct op tail hop htail
  | proposed p hop => exact .proposed p hop
  | voted ref q hop hq => exact .voted ref q hop hq
  | completed ref q tail hop hq htail => exact .completed ref q tail hop hq htail
  | withdrawn ref q hop hq => exact .withdrawn ref q hop hq

theorem Mirrored.events : ∀ row ∈ rows, row.event ∈ mirrorEventNames := by
  cases h with
  | direct op tail hop htail => simpa [mirrorRowOf] using tail_event_mem htail
  | proposed p hop => simp [mirrorRowOf, proposedTail, mirrorEventNames]
  | voted ref q hop hq => simp [mirrorRowOf, approvedTail, mirrorEventNames]
  | completed ref q tail hop hq htail =>
    have hmem := tail_event_mem htail
    simp [mirrorRowOf, approvedTail, hmem]
    decide
  | withdrawn ref q hop hq => simp [mirrorRowOf, withdrawnTail, mirrorEventNames]

theorem Mirrored.distinct : (rows.map AuditEventRecord.event).Nodup := by
  cases h with
  | completed ref q tail hop hq htail =>
    have hevent := isApprovalEvent_tail htail
    have hne : AuditEventName.chainApproved ≠ tail.event := by
      intro heq
      rw [← heq] at hevent
      cases hevent
    simpa [mirrorRowOf, approvedTail] using hne
  | _ => simp

theorem Mirrored.chainSeq : ∀ row ∈ rows, row.chainSeq = some entry.seq := by
  cases h <;> simp [mirrorRowOf]

theorem Mirrored.length : rows.length = 1 ∨ rows.length = 2 := by
  cases h <;> simp

end Mirrored

section Whole
variable {crypto : Crypto} {entries : List Json} {st : ChainState} {index : ChainHistoryIndex}
  (h : verifyChainWithHistory crypto entries = .ok (st, index)) (hdistinct : HashesDistinct crypto entries entries)
include h hdistinct

end Whole

theorem ahead_eq_nil (headSeq : Nat) (rows : List WireMirrorRow) : (bucketMirrorRows rows headSeq).ahead = [] ↔
    ∀ row ∈ rows, mirrored row = true → ∀ seq, seqOf row = some seq → seq ≤ headSeq := by
  obtain ⟨-, hahead, -⟩ := buckets_spec headSeq rows _ rfl
  change (rows.foldl (bucketRow headSeq) ⟨.empty, [], []⟩).ahead = [] ↔ _
  rw [List.eq_nil_iff_forall_not_mem]
  constructor
  · intro h row hrow hmirrored seq hseq
    by_contra hlt
    have hcount := List.count_eq_zero.mpr (h seq)
    rw [hahead, if_pos (by omega), List.countP_eq_zero] at hcount
    exact hcount row hrow (by simp [hmirrored, hseq])
  · intro h seq
    rw [← List.count_eq_zero, hahead]
    split_ifs with hlt
    · rw [List.countP_eq_zero]
      intro row hrow hboth
      rw [Bool.and_eq_true, decide_eq_true_eq] at hboth
      have := h row hrow hboth.1 seq hboth.2
      omega
    · rfl

/-- The rows of a chain, entry by entry. -/
structure HonestRows (crypto : Crypto) (entries : List Json) (g : ChainEntry → List AuditEventRecord)
    (rows : List WireMirrorRow) : Prop where
  numbered : (readEntries entries).map ChainEntry.seq = List.range' 1 entries.length
  mirrored : ∀ entry ∈ readEntries entries, ∃ ts s applied, Mirrored crypto ts s entry applied (g entry)
  rows : Matches Agrees ((readEntries entries).flatMap g) rows

section Rows
variable {crypto : Crypto} {entries : List Json} {g : ChainEntry → List AuditEventRecord} {rows : List WireMirrorRow}

theorem matches_by_seq (hnumbered : (readEntries entries).map ChainEntry.seq = List.range' 1 entries.length)
    (hmirrored : ∀ entry ∈ readEntries entries, ∃ ts s applied, Mirrored crypto ts s entry applied (g entry)) :
    Matches Agrees ((readEntries entries).flatMap g) rows ↔
      (∀ row ∈ rows, ∃ seq, seqOf row = some seq ∧ 1 ≤ seq ∧ seq ≤ entries.length) ∧
        ∀ entry ∈ readEntries entries, Matches Agrees (g entry) (rows.filter fun row => seqOf row = some entry.seq) := by
  have hnodup : ((readEntries entries).map fun entry => some entry.seq).Nodup := by
    rw [show (fun entry : ChainEntry => some entry.seq) = some ∘ ChainEntry.seq from rfl, ← List.map_map, hnumbered]
    exact List.Nodup.map (Option.some_injective _) List.nodup_range'
  have hgroups : Matches Agrees ((readEntries entries).flatMap g) rows ↔
      (∀ row ∈ rows, seqOf row ∈ (readEntries entries).map fun entry => some entry.seq) ∧
        ∀ entry ∈ readEntries entries, Matches Agrees (g entry) (rows.filter fun row => seqOf row = some entry.seq) :=
    matches_flatMap_iff hnodup fun entry hentry e he row hrow => by
      obtain ⟨ts, s, applied, hrows⟩ := hmirrored entry hentry
      exact hrow.chainSeq.trans (hrows.chainSeq e he)
  rw [hgroups]
  refine and_congr (forall₂_congr fun row _ => ?_) Iff.rfl
  rw [show (fun entry : ChainEntry => some entry.seq) = some ∘ ChainEntry.seq from rfl, ← List.map_map, hnumbered,
    List.mem_map]
  refine exists_congr fun seq => ?_
  rw [List.mem_range'_1]
  constructor
  · rintro ⟨hrange, heq⟩
    exact ⟨heq.symm, by omega, by omega⟩
  · rintro ⟨heq, h1, h2⟩
    exact ⟨by omega, heq.symm⟩

theorem HonestRows.all_mirrored (h : HonestRows crypto entries g rows) : ∀ row ∈ rows, Audit.mirrored row = true := by
  intro row hrow
  obtain ⟨e, he, hagrees⟩ := h.rows.exists_of_mem hrow
  obtain ⟨entry, hentry, he⟩ := List.mem_flatMap.mp he
  obtain ⟨ts, s, applied, hrows⟩ := h.mirrored entry hentry
  unfold Audit.mirrored
  rw [hagrees.event, List.contains_iff_mem]
  exact List.mem_map_of_mem (hrows.events e he)

/-- Whatever the head the client has, the sorting reports nothing, and no row is ahead of the last entry's. -/
theorem HonestRows.sorted (h : HonestRows crypto entries g rows) {headSeq : Nat} (hhead : headSeq ≤ entries.length) :
    (bucketMirrorRows rows headSeq).problems = [] ∧
      ((bucketMirrorRows rows headSeq).ahead = [] ↔ headSeq = entries.length) := by
  obtain ⟨hseqs, hgroups⟩ := (matches_by_seq h.numbered h.mirrored).mp h.rows
  have hall := h.all_mirrored
  have hcount : ∀ seq, rows.countP (fun row => Audit.mirrored row && decide (seqOf row = some seq)) =
      (rows.filter fun row => seqOf row = some seq).length := by
    intro seq
    rw [List.countP_eq_length_filter]
    refine congrArg _ (List.filter_congr fun row hrow => ?_)
    rw [hall row hrow, Bool.true_and]
  have hlength : ∀ seq, 1 ≤ seq → seq ≤ entries.length →
      1 ≤ (rows.filter fun row => seqOf row = some seq).length ∧ (rows.filter fun row => seqOf row = some seq).length ≤ 2 := by
    intro seq h1 h2
    have hmem : seq ∈ (readEntries entries).map ChainEntry.seq := by
      rw [h.numbered, List.mem_range'_1]
      omega
    obtain ⟨entry, hentry, rfl⟩ := List.mem_map.mp hmem
    obtain ⟨ts, s, applied, hrows⟩ := h.mirrored entry hentry
    rw [(hgroups entry hentry).length_eq]
    rcases hrows.length with hone | htwo <;> omega
  refine ⟨(sorted_iff headSeq rows).mpr ⟨fun row hrow => ⟨hall row hrow, ?_⟩, entries.length, hhead, fun seq => ?_⟩, ?_⟩
  · obtain ⟨seq, hseq, -⟩ := hseqs row hrow
    rw [hseq]
    exact Option.some_ne_none seq
  · dsimp only
    rw [hcount]
    constructor
    · rintro ⟨hlt, hle⟩
      rw [if_pos hlt]
      exact hlength seq (by omega) hle
    · intro hout
      split_ifs with hlt
      · rw [List.length_eq_zero_iff, List.filter_eq_nil_iff]
        intro row hrow hat
        obtain ⟨seq', hseq', -, hle⟩ := hseqs row hrow
        rw [decide_eq_true_eq, hseq', Option.some.injEq] at hat
        omega
      · rfl
  · rw [ahead_eq_nil]
    constructor
    · intro hnone
      by_contra hne
      have hsome := (hlength entries.length (by omega) (Nat.le_refl _)).1
      obtain ⟨row, hrow⟩ := List.exists_mem_of_length_pos hsome
      obtain ⟨hrow, hat⟩ := List.mem_filter.mp hrow
      have := hnone row hrow (hall row hrow) _ (of_decide_eq_true hat)
      omega
    · rintro rfl row hrow - seq hat
      obtain ⟨seq', hseq', -, hle⟩ := hseqs row hrow
      rw [hseq', Option.some.injEq] at hat
      omega

end Rows

/-! ## The test -/

section Test
variable {crypto : Crypto} {entries : List Json} {st : ChainState} {index : ChainHistoryIndex}
  (h : verifyChainWithHistory crypto entries = .ok (st, index)) (hdistinct : HashesDistinct crypto entries entries)
include h

include hdistinct

end Test

end Maruhi.Audit
