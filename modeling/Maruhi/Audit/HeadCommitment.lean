import Maruhi.Audit.Head
import Maruhi.Lib.HashChain

/-!
# The audit head commits to the log (`audit-head.ts`)

A row is read back from its fields, a head from what it chains, so one head is the head of one list of rows.
-/

open Text Utf8 Framing

namespace Maruhi.Audit
open Chain Checkpoint

/-! ## One row -/

/-- The nullable columns that hold a text. -/
def AuditHeadRow.nullableTexts (row : AuditHeadRow) : List (Option JsString) :=
  [row.rowId, row.actorUserId, row.actorKeyFingerprintHex, row.actorApiTokenId, row.targetUserId,
    row.targetKeyFingerprintHex, row.environmentId, row.variableId, row.payloadText]

/-- The texts a row holds. -/
def AuditHeadRow.texts (row : AuditHeadRow) : List JsString :=
  row.event :: row.actorType :: row.nullableTexts.filterMap id

theorem taggedField_inj {a b : Option JsString} (h : SameBody (taggedField a) (taggedField b)) :
    a.map utf8Encode = b.map utf8Encode := by
  have hbytes := sameBody_bytes.mp h
  cases a <;> cases b <;> simp_all

theorem taggedText_inj {a b : Option JsString} (ha : ∀ s ∈ a, wellFormed s = true) (hb : ∀ s ∈ b, wellFormed s = true)
    (h : SameBody (taggedField a) (taggedField b)) : a = b := by
  have hencoded := taggedField_inj h
  cases a with
  | none => cases b <;> simp_all
  | some s =>
    cases b with
    | none => simp at hencoded
    | some t => rw [utf8Encode_inj_of_wellFormed (ha s rfl) (hb t rfl) (Option.some.inj hencoded)]

theorem taggedTexts_inj {l l' : List (Option JsString)} (hl : ∀ s ∈ l.filterMap id, wellFormed s = true)
    (hl' : ∀ s ∈ l'.filterMap id, wellFormed s = true)
    (h : List.Forall₂ (fun a b => SameBody (taggedField a) (taggedField b)) l l') : l = l' := by
  induction h with
  | nil => rfl
  | @cons a b l l' hab _ ih =>
    have hmem : ∀ {c : Option JsString} {rest : List (Option JsString)} {s}, s ∈ c → s ∈ (c :: rest).filterMap id :=
      fun {c} {rest} {s} hs => List.mem_filterMap.mpr ⟨c, List.mem_cons_self, hs⟩
    have htail : ∀ {c : Option JsString} {rest : List (Option JsString)} {s}, s ∈ rest.filterMap id →
        s ∈ (c :: rest).filterMap id := fun {c} {rest} {s} hs => by
      obtain ⟨d, hd, hs⟩ := List.mem_filterMap.mp hs
      exact List.mem_filterMap.mpr ⟨d, List.mem_cons_of_mem c hd, hs⟩
    rw [taggedText_inj (fun s hs => hl s (hmem hs)) (fun s hs => hl' s (hmem hs)) hab,
      ih (fun s hs => hl s (htail hs)) fun s hs => hl' s (htail hs)]

theorem taggedNumberField_eq {value : Option Nat} {f : LengthPrefixedField} (h : taggedNumberField value = some f) :
    f = taggedField (value.map decimal) := by
  cases value with
  | none => exact (Option.some.inj h).symm
  | some n =>
    unfold taggedNumberField at h
    dsimp only at h
    split_ifs at h
    exact (Option.some.inj h).symm

theorem taggedNumber_inj {a b : Option Nat} {f g : LengthPrefixedField} (ha : taggedNumberField a = some f)
    (hb : taggedNumberField b = some g) (h : SameBody f g) : a = b := by
  rw [taggedNumberField_eq ha, taggedNumberField_eq hb] at h
  have hencoded := taggedField_inj h
  cases a with
  | none => cases b <;> simp_all
  | some m =>
    cases b with
    | none => simp at hencoded
    | some n => rw [decimal_inj (utf8Encode_inj_of_ascii (decimal_ascii m) (Option.some.inj hencoded))]

theorem auditRow_eq_of_fields {row row' : AuditHeadRow} {fields fields' : List LengthPrefixedField}
    (h : auditRowFields row = some fields) (h' : auditRowFields row' = some fields')
    (htexts : ∀ s ∈ row.texts, wellFormed s = true) (htexts' : ∀ s ∈ row'.texts, wellFormed s = true)
    (hsame : List.Forall₂ SameBody fields fields') : row = row' := by
  unfold auditRowFields at h h'
  split_ifs at h h'
  simp only [Option.bind_eq_bind, Option.bind_eq_some_iff, Option.pure_def, Option.some.injEq] at h h'
  obtain ⟨clientTs, hclientTs, epoch, hepoch, version, hversion, chainSeq, hchainSeq, rfl⟩ := h
  obtain ⟨clientTs', hclientTs', epoch', hepoch', version', hversion', chainSeq', hchainSeq', rfl⟩ := h'
  simp only [List.forall₂_cons, List.Forall₂.nil, and_true] at hsame
  obtain ⟨hseq, hrowId, hserverTs, hct, hevent, hactorType, hactorUserId, hactorKey, hactorToken, htargetUserId,
    htargetKey, henvironmentId, hvariableId, hep, hve, hcs, hpayload⟩ := hsame
  have hnullable : row.nullableTexts = row'.nullableTexts := by
    refine taggedTexts_inj (fun s hs => htexts s ?_) (fun s hs => htexts' s ?_) ?_
    · exact List.mem_cons_of_mem _ (List.mem_cons_of_mem _ hs)
    · exact List.mem_cons_of_mem _ (List.mem_cons_of_mem _ hs)
    · simp only [AuditHeadRow.nullableTexts, List.forall₂_cons, List.Forall₂.nil, and_true]
      exact ⟨hrowId, hactorUserId, hactorKey, hactorToken, htargetUserId, htargetKey, henvironmentId, hvariableId, hpayload⟩
  simp only [AuditHeadRow.nullableTexts, List.cons.injEq, and_true] at hnullable
  have hseq := sameBody_num hseq
  have hserverTs := sameBody_num hserverTs
  have hevent := utf8Encode_inj_of_wellFormed (htexts _ (by simp [AuditHeadRow.texts]))
    (htexts' _ (by simp [AuditHeadRow.texts])) (sameBody_str.mp hevent)
  have hactorType := utf8Encode_inj_of_wellFormed (htexts _ (by simp [AuditHeadRow.texts]))
    (htexts' _ (by simp [AuditHeadRow.texts])) (sameBody_str.mp hactorType)
  have hct := taggedNumber_inj hclientTs hclientTs' hct
  have hep := taggedNumber_inj hepoch hepoch' hep
  have hve := taggedNumber_inj hversion hversion' hve
  have hcs := taggedNumber_inj hchainSeq hchainSeq' hcs
  rcases row with ⟨⟨⟩, _⟩
  rcases row' with ⟨⟨⟩, _⟩
  simp_all

/-! ## The head -/

/-- The bytes whose hash is the digest of a row. -/
def auditRowBytes (row : AuditHeadRow) : Option Bytes := do
  let fields ← auditRowFields row
  encodeLengthPrefixed fields

/-- The bytes whose hash is the next head. -/
def auditHeadBytes (suite prevHeadHashHex : JsString) (seq : Nat) (rowDigestHex : JsString) : Option Bytes :=
  encodeLengthPrefixed [.str (suite ++ lit "/audit-head"), .str prevHeadHashHex, .num seq, .str rowDigestHex]

/-- One more row under the head. -/
def advanceHead (crypto : Crypto) (suite head : JsString) (row : AuditHeadRow) : Option JsString := do
  let digest ← computeAuditRowDigest crypto row
  computeAuditHeadHash crypto suite head row.seq digest

/-- The head of a log, from the empty h_0. -/
def auditHead (crypto : Crypto) (suite : JsString) (rows : List AuditHeadRow) : Option JsString :=
  rows.foldlM (advanceHead crypto suite) []

/-- The bytes that are hashed on the way to the head of a log. -/
inductive Hashed (crypto : Crypto) (suite : JsString) (rows : List AuditHeadRow) : Bytes → Prop
  | row {row : AuditHeadRow} {bytes : Bytes} (hrow : row ∈ rows) (hbytes : auditRowBytes row = some bytes) :
      Hashed crypto suite rows bytes
  | head {pre : List AuditHeadRow} {row : AuditHeadRow} {head digest : JsString} {bytes : Bytes}
      (hpre : pre ++ [row] <+: rows) (hhead : auditHead crypto suite pre = some head)
      (hdigest : computeAuditRowDigest crypto row = some digest)
      (hbytes : auditHeadBytes suite head row.seq digest = some bytes) : Hashed crypto suite rows bytes

section Heads
variable {crypto : Crypto} {suite suite' : JsString} {rows rows' : List AuditHeadRow} {head head' next : JsString}
  {row : AuditHeadRow}

/-- What a step hashes. -/
structure Advanced (crypto : Crypto) (suite head next : JsString) (row : AuditHeadRow) : Prop where
  prev : head = [] ∨ isLowercaseHexOfLength head 64 = true
  hashes : ∃ rowBytes bytes, auditRowBytes row = some rowBytes ∧
    computeAuditRowDigest crypto row = some (encodeHex (crypto.sha256 rowBytes)) ∧
    auditHeadBytes suite head row.seq (encodeHex (crypto.sha256 rowBytes)) = some bytes ∧
    next = encodeHex (crypto.sha256 bytes)

theorem advanceHead_some (h : advanceHead crypto suite head row = some next) : Advanced crypto suite head next row := by
  unfold advanceHead at h
  obtain ⟨digest, hdigest, h⟩ := Option.bind_eq_some_iff.mp h
  have hrow := hdigest
  unfold computeAuditRowDigest at hrow
  simp only [Option.bind_eq_bind, Option.bind_eq_some_iff, Option.pure_def, Option.some.injEq] at hrow
  obtain ⟨fields, hfields, rowBytes, hrowBytes, rfl⟩ := hrow
  unfold computeAuditHeadHash at h
  split_ifs at h with hsuite hseq hprev hrowDigest
  obtain ⟨bytes, hbytes, rfl⟩ := Option.map_eq_some_iff.mp h
  refine ⟨?_, rowBytes, bytes, ?_, hdigest, hbytes, rfl⟩
  · by_cases hnil : head = []
    · exact Or.inl hnil
    · right
      simpa [hnil] using hprev
  · unfold auditRowBytes
    rw [hfields]
    exact hrowBytes

theorem Advanced.prev_ascii (h : Advanced crypto suite head next row) : ∀ u ∈ head, u.toNat < 0x80 := by
  rcases h.prev with rfl | hhex
  · simp
  · simp only [isLowercaseHexOfLength, Bool.and_eq_true, Option.isSome_iff_exists] at hhex
    obtain ⟨-, decoded, hdecoded⟩ := hhex
    exact decodeHex_ascii head decoded hdecoded

theorem advanceHead_ne_nil (hsha : ∀ bytes, (crypto.sha256 bytes).length = 32) :
    advanceHead crypto suite head row ≠ some [] := by
  intro h
  obtain ⟨-, -, bytes, -, -, -, hnext⟩ := advanceHead_some h
  have hnil := encodeHex_inj (a := []) hnext
  have hlength := hsha bytes
  rw [← hnil] at hlength
  cases hlength

theorem advanceHead_readBack
    (hapart : ∀ b b', Hashed crypto suite rows b → Hashed crypto suite' rows' b' → crypto.sha256 b = crypto.sha256 b' → b = b')
    (htexts : ∀ row ∈ rows, ∀ s ∈ row.texts, wellFormed s = true)
    (htexts' : ∀ row ∈ rows', ∀ s ∈ row.texts, wellFormed s = true) :
    HashChain.ReadBack (advanceHead crypto suite) (advanceHead crypto suite') [] rows rows' := by
  intro pre row pre' row' head head' next hpre hpre' hhead hhead' hstep hstep'
  have hadvanced := advanceHead_some hstep
  obtain ⟨rowBytes, bytes, hrow, hdigest, hbytes, hnext⟩ := hadvanced.hashes
  obtain ⟨rowBytes', bytes', hrow', hdigest', hbytes', hnext'⟩ := (advanceHead_some hstep').hashes
  have hheads : bytes = bytes' := hapart bytes bytes' (.head hpre hhead hdigest hbytes)
    (.head hpre' hhead' hdigest' hbytes') (encodeHex_inj (hnext.symm.trans hnext'))
  subst hheads
  have hsame := encodeLengthPrefixed_inj hbytes hbytes'
  simp only [List.forall₂_cons, List.Forall₂.nil, and_true] at hsame
  obtain ⟨-, hprev, -, hrowDigest⟩ := hsame
  have hmem : row ∈ rows := hpre.subset (List.mem_append_right _ List.mem_cons_self)
  have hmem' : row' ∈ rows' := hpre'.subset (List.mem_append_right _ List.mem_cons_self)
  have hrows : rowBytes = rowBytes' := hapart rowBytes rowBytes' (.row hmem hrow) (.row hmem' hrow')
    (encodeHex_inj_utf8 (sameBody_str.mp hrowDigest))
  subst hrows
  obtain ⟨fields, hfields, hencoded⟩ := Option.bind_eq_some_iff.mp hrow
  obtain ⟨fields', hfields', hencoded'⟩ := Option.bind_eq_some_iff.mp hrow'
  exact ⟨utf8Encode_inj_of_ascii hadvanced.prev_ascii (sameBody_str.mp hprev),
    auditRow_eq_of_fields hfields hfields' (htexts row hmem) (htexts' row' hmem') (encodeLengthPrefixed_inj hencoded hencoded')⟩

end Heads

/-- Logs under one head are one log, column by column. -/
theorem audit_head_commits (crypto : Crypto) (suite suite' : JsString) (rows rows' : List AuditHeadRow)
    (head head' : JsString) (hsha : ∀ bytes, (crypto.sha256 bytes).length = 32)
    (hapart : ∀ b b', Hashed crypto suite rows b → Hashed crypto suite' rows' b' → crypto.sha256 b = crypto.sha256 b' → b = b')
    (htexts : ∀ row ∈ rows ++ rows', ∀ s ∈ row.texts, wellFormed s = true)
    (h : auditHead crypto suite rows = some head) (h' : auditHead crypto suite' rows' = some head') :
    head = head' → rows = rows' := by
  rintro rfl
  have hread := advanceHead_readBack hapart (fun row hrow => htexts row (List.mem_append_left _ hrow))
    fun row hrow => htexts row (List.mem_append_right _ hrow)
  exact HashChain.eq_of_foldlM_eq (fun m row => advanceHead_ne_nil hsha) (fun m row => advanceHead_ne_nil hsha) hread h h'

/-! ## A row without an id, and a row with the empty one -/

/-- What is hashed for the heads, from one head on. -/
def headsHashed (crypto : Crypto) (suite head : JsString) : List AuditHeadRow → List Bytes
  | [] => []
  | row :: rest =>
    ((computeAuditRowDigest crypto row).bind fun digest => auditHeadBytes suite head row.seq digest).toList ++
      match advanceHead crypto suite head row with
      | none => []
      | some next => headsHashed crypto suite next rest

theorem mem_headsHashed {crypto : Crypto} {suite last digest : JsString} {row : AuditHeadRow} {bytes : Bytes}
    (hdigest : computeAuditRowDigest crypto row = some digest)
    (hbytes : auditHeadBytes suite last row.seq digest = some bytes) :
    ∀ {pre rows : List AuditHeadRow} {head : JsString}, pre ++ [row] <+: rows →
      pre.foldlM (advanceHead crypto suite) head = some last → bytes ∈ headsHashed crypto suite head rows
  | [], rows, head, hpre, hlast => by
    obtain ⟨rest, rfl⟩ := hpre
    cases hlast
    refine List.mem_append_left _ ?_
    rw [hdigest, Option.bind_some, hbytes]
    exact List.mem_singleton.mpr rfl
  | first :: pre, rows, head, hpre, hlast => by
    obtain ⟨rest, rfl⟩ := hpre
    rw [List.foldlM_cons] at hlast
    obtain ⟨next, hnext, hlast⟩ := Option.bind_eq_some_iff.mp hlast
    refine List.mem_append_right _ ?_
    rw [hnext]
    exact mem_headsHashed hdigest hbytes ⟨rest, rfl⟩ hlast

def hashedBytes (crypto : Crypto) (suite : JsString) (rows : List AuditHeadRow) : List Bytes :=
  rows.filterMap auditRowBytes ++ headsHashed crypto suite [] rows

theorem mem_hashedBytes {crypto : Crypto} {suite : JsString} {rows : List AuditHeadRow} {bytes : Bytes}
    (h : Hashed crypto suite rows bytes) : bytes ∈ hashedBytes crypto suite rows := by
  cases h with
  | row hrow hbytes => exact List.mem_append_left _ (List.mem_filterMap.mpr ⟨_, hrow, hbytes⟩)
  | head hpre hhead hdigest hbytes => exact List.mem_append_right _ (mem_headsHashed hdigest hbytes hpre hhead)

def exampleRow (seq : Nat) (rowId : Option JsString) : AuditHeadRow where
  seq := seq
  rowId := rowId
  serverTs := 1700000000000
  clientTs := none
  event := lit "var.read"
  actorType := lit "user"
  actorUserId := some (lit "alice")
  actorKeyFingerprintHex := none
  actorApiTokenId := none
  targetUserId := none
  targetKeyFingerprintHex := none
  environmentId := some (lit "prod")
  variableId := none
  epoch := none
  version := some 3
  chainSeq := none
  payloadText := none

def exampleRows (rowId : Option JsString) : List AuditHeadRow := [exampleRow 1 (some (lit "first")), exampleRow 2 rowId]

set_option maxRecDepth 100000 in
theorem exampleRows_apart : (auditHead exampleCrypto suiteId (exampleRows none)).isSome = true ∧
    (auditHead exampleCrypto suiteId (exampleRows (some []))).isSome = true ∧
    ∀ b ∈ hashedBytes exampleCrypto suiteId (exampleRows none),
      ∀ b' ∈ hashedBytes exampleCrypto suiteId (exampleRows (some [])),
        exampleCrypto.sha256 b = exampleCrypto.sha256 b' → b = b' := by
  rw [exampleCrypto_eq []]
  decide +kernel

/-- The two logs have two heads. -/
theorem audit_head_commits_example : ∃ head head', auditHead exampleCrypto suiteId (exampleRows none) = some head ∧
    auditHead exampleCrypto suiteId (exampleRows (some [])) = some head' ∧ head ≠ head' := by
  obtain ⟨hsome, hsome', hapart⟩ := exampleRows_apart
  obtain ⟨head, h⟩ := Option.isSome_iff_exists.mp hsome
  obtain ⟨head', h'⟩ := Option.isSome_iff_exists.mp hsome'
  refine ⟨head, head', h, h', fun heq => ?_⟩
  have hrows := audit_head_commits exampleCrypto suiteId suiteId (exampleRows none) (exampleRows (some [])) head head'
    Sha256.length_sha256 (fun b b' hb hb' => hapart b (mem_hashedBytes hb) b' (mem_hashedBytes hb'))
    (by decide +kernel) h h' heq
  exact absurd hrows (by decide)

end Maruhi.Audit
