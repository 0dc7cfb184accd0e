import Maruhi.Checkpoint.Digest
import Maruhi.Lib.TextOrder

/-!
# Digests commit to sets (`sorted-digest.ts`, `manifest-sign.ts`, `values-digest.ts`)

Entries with distinct ids have one order by the bytes of the ids, so a digest forgets the order they were given in and
nothing else.
-/

open Text Utf8 Framing

namespace Maruhi.Checkpoint
open Chain

/-! ## The variables digest (`manifest-sign.ts`) -/

/-- The latest statement of one variable, tombstones and declarations included. -/
structure VariablesDigestEntry where
  variableId : JsString
  status : JsString
  metaVersion : Nat
  metaSigHashHex : JsString
  deriving DecidableEq, Repr

def digestEntryInvalidField (entry : VariablesDigestEntry) : Option String :=
  if entry.variableId.length = 0 then some "entry variableId"
  else if entry.status ≠ lit "active" && entry.status ≠ lit "deleted" && entry.status ≠ lit "declared" then some "entry status"
  else if !(entry.metaVersion ≤ Json.maxSafeInteger) || entry.metaVersion < 1 then some "entry metaVersion"
  else if !isLowercaseHexOfLength entry.metaSigHashHex 64 then some "entry metaSigHashHex"
  else none

def digestEntryFields (entry : VariablesDigestEntry) : List LengthPrefixedField :=
  [.str entry.variableId, .str entry.status, .num entry.metaVersion, .str entry.metaSigHashHex]

def variablesDigestDomain : JsString := lit "env-manifest-vars"

def computeVariablesDigest (crypto : Crypto) (suite : JsString) (entries : List VariablesDigestEntry) :
    Except DigestFailure JsString :=
  computeVariableKeyedDigest VariablesDigestEntry.variableId digestEntryInvalidField digestEntryFields crypto
    suite variablesDigestDomain entries

/-- The bytes whose hash the digest is. -/
def variablesDigestBytes (suite : JsString) (entries : List VariablesDigestEntry) : Option Bytes :=
  keyedDigestBytes VariablesDigestEntry.variableId digestEntryFields suite variablesDigestDomain entries

theorem isLowercaseHexOfLength_ascii {s : JsString} {n : Nat} (h : isLowercaseHexOfLength s n = true) :
    ∀ u ∈ s, u.toNat < 0x80 := by
  simp only [isLowercaseHexOfLength, Bool.and_eq_true, Option.isSome_iff_exists] at h
  obtain ⟨-, decoded, hdecoded⟩ := h
  exact decodeHex_ascii s decoded hdecoded

theorem digestEntry_ascii {entry : VariablesDigestEntry} (h : digestEntryInvalidField entry = none) :
    (∀ u ∈ entry.status, u.toNat < 0x80) ∧ ∀ u ∈ entry.metaSigHashHex, u.toNat < 0x80 := by
  unfold digestEntryInvalidField at h
  split_ifs at h with hid hstatus hversion hhash
  refine ⟨?_, isLowercaseHexOfLength_ascii (by simpa using hhash)⟩
  have hknown : entry.status = lit "active" ∨ entry.status = lit "deleted" ∨ entry.status = lit "declared" := by
    simp only [Bool.and_eq_true, decide_eq_true_eq, ne_eq] at hstatus
    tauto
  rcases hknown with hknown | hknown | hknown <;> rw [hknown] <;> exact ascii_of_all (by decide)

theorem digestEntry_eq_of_sameBody {a b : VariablesDigestEntry} (ha : digestEntryInvalidField a = none)
    (hida : wellFormed a.variableId = true) (hidb : wellFormed b.variableId = true)
    (h : List.Forall₂ SameBody (digestEntryFields a) (digestEntryFields b)) : a = b := by
  simp only [digestEntryFields, List.forall₂_cons, List.Forall₂.nil, and_true] at h
  obtain ⟨hid, hstatus, hversion, hhash⟩ := h
  obtain ⟨hastatus, hahash⟩ := digestEntry_ascii ha
  have hid := utf8Encode_inj_of_wellFormed hida hidb (sameBody_str.mp hid)
  have hstatus := utf8Encode_inj_of_ascii hastatus (sameBody_str.mp hstatus)
  have hversion := sameBody_num hversion
  have hhash := utf8Encode_inj_of_ascii hahash (sameBody_str.mp hhash)
  cases a
  cases b
  simp_all

/-! ## The order of the entries -/

/-- The first differing byte and then the length: bytes in the order of a dictionary. -/
theorem firstDifference_pos (a b : Bytes) :
    0 < (match (a.zip b).find? fun pair => pair.1 ≠ pair.2 with
      | some pair => (pair.1.toNat : Int) - pair.2.toNat
      | none => (a.length : Int) - b.length) ↔ b < a := by
  induction a generalizing b with
  | nil =>
    rw [List.zip_nil_left, List.find?_nil]
    refine iff_of_false ?_ (List.not_lt_nil b)
    simp only [List.length_nil]
    omega
  | cons x a ih =>
    cases b with
    | nil =>
      rw [List.zip_nil_right, List.find?_nil]
      refine iff_of_true ?_ (List.nil_lt_cons x a)
      simp only [List.length_nil, List.length_cons]
      omega
    | cons y b =>
      rw [List.zip_cons_cons, List.cons_lt_cons_iff, ← ih b]
      by_cases hxy : x = y
      · subst hxy
        rw [List.find?_cons_of_neg (by simp)]
        simp only [lt_self_iff_false, false_or, true_and, List.length_cons]
        split
        · exact Iff.rfl
        · rw [Int.sub_pos, Int.sub_pos]
          omega
      · rw [List.find?_cons_of_pos (by simpa using hxy)]
        simp only [Ne.symm hxy, false_and, or_false]
        rw [UInt8.lt_iff_toNat_lt]
        omega

theorem compareUtf8Bytes_nonpos (a b : JsString) : compareUtf8Bytes a b ≤ 0 ↔ utf8Encode a ≤ utf8Encode b := by
  rw [← not_lt, ← not_lt]
  exact not_congr (firstDifference_pos _ _)

section Keyed
variable {Entry : Type} {variableIdOf : Entry → JsString} {entryInvalidField : Entry → Option String}
  {entryFields : Entry → List LengthPrefixedField}

theorem orderedEntries_perm (entries : List Entry) : (orderedEntries variableIdOf entries).Perm entries :=
  List.mergeSort_perm entries _

theorem orderedEntries_sorted (entries : List Entry) :
    (orderedEntries variableIdOf entries).Pairwise fun a b => utf8Encode (variableIdOf a) ≤ utf8Encode (variableIdOf b) := by
  refine (List.pairwise_mergeSort ?_ ?_ entries).imp fun h => (compareUtf8Bytes_nonpos _ _).mp (of_decide_eq_true h)
  · intro a b c hab hbc
    simp only [decide_eq_true_eq, compareUtf8Bytes_nonpos] at hab hbc ⊢
    exact hab.trans hbc
  · intro a b
    simp only [Bool.or_eq_true, decide_eq_true_eq, compareUtf8Bytes_nonpos]
    exact le_total _ _

/-- The order the entries are given in is lost. -/
theorem orderedEntries_eq_of_perm {entries entries' : List Entry} (hnodup : (entries.map variableIdOf).Nodup)
    (hids : ∀ entry ∈ entries, wellFormed (variableIdOf entry) = true) (h : entries.Perm entries') :
    orderedEntries variableIdOf entries = orderedEntries variableIdOf entries' := by
  have hperm : (orderedEntries variableIdOf entries).Perm (orderedEntries variableIdOf entries') :=
    (orderedEntries_perm entries).trans (h.trans (orderedEntries_perm entries').symm)
  refine List.Perm.eq_of_pairwise ?_ (orderedEntries_sorted entries) (orderedEntries_sorted entries') hperm
  intro a b ha hb hab hba
  have ha := mem_orderedEntries.mp ha
  have hb := h.mem_iff.mpr (mem_orderedEntries.mp hb)
  have hid := utf8Encode_inj_of_wellFormed (hids a ha) (hids b hb) (le_antisymm hab hba)
  exact List.inj_on_of_nodup_map hnodup ha hb hid

/-- No two byte strings that were hashed have one hash. -/
def HashedApart (crypto : Crypto) (bytes bytes' : Option Bytes) : Prop :=
  ∀ b b', bytes = some b → bytes' = some b' → crypto.sha256 b = crypto.sha256 b' → b = b'

theorem keyedDigest_eq_iff {crypto : Crypto} {suite domain digest digest' : JsString} {entries entries' : List Entry}
    (h : computeVariableKeyedDigest variableIdOf entryInvalidField entryFields crypto suite domain entries = .ok digest)
    (h' : computeVariableKeyedDigest variableIdOf entryInvalidField entryFields crypto suite domain entries' = .ok digest')
    (hids : ∀ entry ∈ entries, wellFormed (variableIdOf entry) = true)
    (hinj : ∀ a ∈ entries, ∀ b ∈ entries', List.Forall₂ SameBody (entryFields a) (entryFields b) → a = b)
    (hapart : HashedApart crypto (keyedDigestBytes variableIdOf entryFields suite domain entries)
      (keyedDigestBytes variableIdOf entryFields suite domain entries')) :
    digest = digest' ↔ entries.Perm entries' := by
  have hd := computeVariableKeyedDigest_ok h
  have hd' := computeVariableKeyedDigest_ok h'
  constructor
  · rintro rfl
    have heq := hd.ordered_eq hd' hapart hinj
    exact (orderedEntries_perm entries).symm.trans (heq ▸ orderedEntries_perm entries')
  · intro hperm
    have heq := orderedEntries_eq_of_perm hd.nodup hids hperm
    obtain ⟨bytes, hbytes, rfl⟩ := hd.bytes
    obtain ⟨bytes', hbytes', rfl⟩ := hd'.bytes
    unfold keyedDigestBytes at hbytes hbytes'
    rw [heq, hbytes'] at hbytes
    rw [Option.some.inj hbytes]

theorem keyedDigest_of_order {crypto : Crypto} {suite domain : JsString} {entries ordered : List Entry} {bytes : Bytes}
    (hsuite : suite.length ≠ 0) (horder : orderedEntries variableIdOf entries = ordered)
    (hvalid : entriesInvalidField variableIdOf entryInvalidField [] entries = none)
    (hbytes : ((ordered.mapM fun entry => encodeLengthPrefixed (entryFields entry)).bind fun fields =>
      encodeLengthPrefixed (.str (suite ++ lit "/" ++ domain) :: fields.map .bytes)) = some bytes) :
    keyedDigestBytes variableIdOf entryFields suite domain entries = some bytes ∧
      computeVariableKeyedDigest variableIdOf entryInvalidField entryFields crypto suite domain entries =
        .ok (encodeHex (crypto.sha256 bytes)) := by
  have hkeyed : keyedDigestBytes variableIdOf entryFields suite domain entries = some bytes := by
    unfold keyedDigestBytes
    rw [horder]
    exact hbytes
  refine ⟨hkeyed, ?_⟩
  unfold computeVariableKeyedDigest
  rw [if_neg hsuite, hvalid, hkeyed]

theorem keyedDigestBytes_domain {suite domain : JsString} {entries : List Entry} {bytes : Bytes}
    (h : keyedDigestBytes variableIdOf entryFields suite domain entries = some bytes) :
    ∃ rest, encodeLengthPrefixed (.str (suite ++ lit "/" ++ domain) :: rest) = some bytes := by
  simp only [keyedDigestBytes, Option.bind_eq_bind, Option.bind_eq_some_iff] at h
  obtain ⟨fields, -, hbytes⟩ := h
  exact ⟨_, hbytes⟩

end Keyed

/-! ## The two digests -/

/-- The names of the digests differ in their last byte, whatever the suites are. -/
theorem digestDomains_differ (suite suite' : JsString) :
    utf8Encode (suite ++ lit "/" ++ variablesDigestDomain) ≠ utf8Encode (suite' ++ lit "/" ++ valuesDigestDomain) := by
  intro h
  have hslash : ∀ name : JsString, ∀ u ∈ (lit "/" ++ name).head?, isLow u = false := by
    intro name u hu
    obtain rfl : 47 = u := Option.some.inj hu
    decide
  rw [List.append_assoc, List.append_assoc, utf8Encode_append (hslash _), utf8Encode_append (hslash _)] at h
  have hlast := congrArg List.getLast? h
  rw [List.getLast?_append, List.getLast?_append,
    show (utf8Encode (lit "/" ++ variablesDigestDomain)).getLast? = some 115 by decide,
    show (utf8Encode (lit "/" ++ valuesDigestDomain)).getLast? = some 116 by decide, Option.some_or, Option.some_or] at hlast
  cases hlast

/-- Each digest commits to its set of entries, and no digest of one kind is a digest of the other. -/
theorem digests_commit_to_sets (crypto : Crypto) (suite : JsString) :
    (∀ entries entries' digest digest', computeVariablesDigest crypto suite entries = .ok digest →
      computeVariablesDigest crypto suite entries' = .ok digest' →
      (∀ entry ∈ entries ++ entries', wellFormed entry.variableId = true) →
      HashedApart crypto (variablesDigestBytes suite entries) (variablesDigestBytes suite entries') →
      (digest = digest' ↔ entries.Perm entries')) ∧
    (∀ entries entries' digest digest', computeEnvValuesDigest crypto suite entries = .ok digest →
      computeEnvValuesDigest crypto suite entries' = .ok digest' →
      (∀ entry ∈ entries ++ entries', wellFormed entry.variableId = true) →
      HashedApart crypto (valuesDigestBytes suite entries) (valuesDigestBytes suite entries') →
      (digest = digest' ↔ entries.Perm entries')) ∧
    ∀ suite' entries entries' digest digest', computeVariablesDigest crypto suite entries = .ok digest →
      computeEnvValuesDigest crypto suite' entries' = .ok digest' →
      HashedApart crypto (variablesDigestBytes suite entries) (valuesDigestBytes suite' entries') → digest ≠ digest' := by
  refine ⟨fun entries entries' digest digest' h h' hids hapart => ?_,
    fun entries entries' digest digest' h h' hids hapart => ?_,
    fun suite' entries entries' digest digest' h h' hapart heq => ?_⟩
  · have hid := fun entry hentry => hids entry (List.mem_append_left entries' hentry)
    have hid' := fun entry hentry => hids entry (List.mem_append_right entries hentry)
    have hd := computeVariableKeyedDigest_ok h
    exact keyedDigest_eq_iff h h' hid (fun a ha b hb =>
      digestEntry_eq_of_sameBody (hd.valid a ha) (hid a ha) (hid' b hb)) hapart
  · have hid := fun entry hentry => hids entry (List.mem_append_left entries' hentry)
    have hid' := fun entry hentry => hids entry (List.mem_append_right entries hentry)
    have hd := computeVariableKeyedDigest_ok h
    exact keyedDigest_eq_iff h h' hid (fun a ha b hb =>
      entry_eq_of_sameBody (hd.valid a ha) (hid a ha) (hid' b hb)) hapart
  · obtain ⟨bytes, hbytes, rfl⟩ := (computeVariableKeyedDigest_ok h).bytes
    obtain ⟨bytes', hbytes', rfl⟩ := (computeVariableKeyedDigest_ok h').bytes
    obtain rfl := hapart bytes bytes' hbytes hbytes' (encodeHex_inj heq)
    obtain ⟨rest, hrest⟩ := keyedDigestBytes_domain hbytes
    obtain ⟨rest', hrest'⟩ := keyedDigestBytes_domain hbytes'
    obtain ⟨hname, -⟩ := List.forall₂_cons.mp (encodeLengthPrefixed_inj hrest hrest')
    exact digestDomains_differ suite suite' (sameBody_str.mp hname)

/-! ## Two variables -/

def exampleDeclared : VariablesDigestEntry where
  variableId := lit "var-a"
  status := lit "declared"
  metaVersion := 1
  metaSigHashHex := List.replicate 64 48

def exampleActive : VariablesDigestEntry where
  variableId := lit "var-b"
  status := lit "active"
  metaVersion := 3
  metaSigHashHex := List.replicate 64 97

def exampleValue : EnvValuesDigestEntry where
  variableId := lit "var-b"
  version := 2
  valueSigHashHex := List.replicate 64 98

theorem exampleEntries_order : orderedEntries VariablesDigestEntry.variableId [exampleDeclared, exampleActive] =
    [exampleDeclared, exampleActive] := List.mergeSort_of_pairwise (by decide)

theorem exampleEntries_swapped : orderedEntries VariablesDigestEntry.variableId [exampleActive, exampleDeclared] =
    [exampleDeclared, exampleActive] :=
  (orderedEntries_eq_of_perm (by decide) (by decide) (List.Perm.swap _ _ _)).trans exampleEntries_order

/-- The frames of entries in order, under a digest's name. -/
def orderedBytes {Entry : Type} (entryFields : Entry → List LengthPrefixedField) (domain : JsString)
    (entries : List Entry) : Bytes :=
  ((entries.mapM fun entry => encodeLengthPrefixed (entryFields entry)).bind fun fields =>
    encodeLengthPrefixed (.str (suiteId ++ lit "/" ++ domain) :: fields.map .bytes)).getD []

set_option maxRecDepth 100000 in
theorem exampleHashes_differ :
    Sha256.sha256 (orderedBytes digestEntryFields variablesDigestDomain [exampleDeclared, exampleActive]) ≠
      Sha256.sha256 (orderedBytes digestEntryFields variablesDigestDomain [exampleDeclared]) ∧
    Sha256.sha256 (orderedBytes digestEntryFields variablesDigestDomain [exampleDeclared]) ≠
      Sha256.sha256 (orderedBytes valuesDigestEntryFields valuesDigestDomain [exampleValue]) := by
  rw [Sha256.sha256_eq]
  decide +kernel

/-- The order of two variables does not show, a variable that is missing does, and so does the kind of a digest. -/
theorem digests_commit_to_sets_example : ∃ both swapped one value,
    computeVariablesDigest exampleCrypto suiteId [exampleDeclared, exampleActive] = .ok both ∧
      computeVariablesDigest exampleCrypto suiteId [exampleActive, exampleDeclared] = .ok swapped ∧
      computeVariablesDigest exampleCrypto suiteId [exampleDeclared] = .ok one ∧
      computeEnvValuesDigest exampleCrypto suiteId [exampleValue] = .ok value ∧
      both = swapped ∧ both ≠ one ∧ one ≠ value := by
  have hone : orderedEntries VariablesDigestEntry.variableId [exampleDeclared] = [exampleDeclared] :=
    List.mergeSort_of_pairwise (by decide)
  have hvalue : orderedEntries EnvValuesDigestEntry.variableId [exampleValue] = [exampleValue] :=
    List.mergeSort_of_pairwise (by decide)
  obtain ⟨hb, hbd⟩ := @keyedDigest_of_order _ _ digestEntryInvalidField digestEntryFields exampleCrypto suiteId
    variablesDigestDomain _ _ (orderedBytes digestEntryFields variablesDigestDomain [exampleDeclared, exampleActive])
    (by decide) exampleEntries_order (by decide +kernel) (by decide +kernel)
  obtain ⟨hs, hsd⟩ := @keyedDigest_of_order _ _ digestEntryInvalidField digestEntryFields exampleCrypto suiteId
    variablesDigestDomain _ _ (orderedBytes digestEntryFields variablesDigestDomain [exampleDeclared, exampleActive])
    (by decide) exampleEntries_swapped (by decide +kernel) (by decide +kernel)
  obtain ⟨ho, hod⟩ := @keyedDigest_of_order _ _ digestEntryInvalidField digestEntryFields exampleCrypto suiteId
    variablesDigestDomain _ _ (orderedBytes digestEntryFields variablesDigestDomain [exampleDeclared])
    (by decide) hone (by decide +kernel) (by decide +kernel)
  obtain ⟨hv, hvd⟩ := @keyedDigest_of_order _ _ valuesDigestEntryInvalidField valuesDigestEntryFields exampleCrypto
    suiteId valuesDigestDomain _ _ (orderedBytes valuesDigestEntryFields valuesDigestDomain [exampleValue])
    (by decide) hvalue (by decide +kernel) (by decide +kernel)
  have hids : ∀ entry ∈ [exampleDeclared, exampleActive], wellFormed entry.variableId = true := by decide
  obtain ⟨hvariables, -, hkinds⟩ := digests_commit_to_sets exampleCrypto suiteId
  refine ⟨_, _, _, _, hbd, hsd, hod, hvd, ?_, ?_, ?_⟩
  · refine (hvariables _ _ _ _ hbd hsd ?_ ?_).mpr (List.Perm.swap _ _ _)
    · decide
    · rintro b b' hb' hs' -
      rw [variablesDigestBytes, hb] at hb'
      rw [variablesDigestBytes, hs] at hs'
      exact Option.some.inj (hb'.symm.trans hs')
  · intro heq
    have hperm := (hvariables _ _ _ _ hbd hod (by decide) ?_).mp heq
    · exact absurd hperm.length_eq (by decide)
    · rintro b b' hb' ho' hhash
      rw [variablesDigestBytes, hb] at hb'
      rw [variablesDigestBytes, ho] at ho'
      rw [← Option.some.inj hb', ← Option.some.inj ho'] at hhash
      exact absurd hhash exampleHashes_differ.1
  · refine hkinds _ _ _ _ _ hod hvd ?_
    rintro b b' ho' hv' hhash
    rw [variablesDigestBytes, ho] at ho'
    rw [valuesDigestBytes, hv] at hv'
    rw [← Option.some.inj ho', ← Option.some.inj hv'] at hhash
    exact absurd hhash exampleHashes_differ.2

end Maruhi.Checkpoint
