import Maruhi.Chain.Injective
import Mathlib.Data.List.Sort

/-!
# The values digest (`sorted-digest.ts`, `values-digest.ts`)

Entries are validated, sorted by the bytes of their variable id and framed. The digest determines the
entries as a set.
-/

open Text Utf8 Framing

namespace Maruhi.Checkpoint
open Chain

/-! ## The keyed digest -/

/-- The first differing byte decides, then the length. -/
def compareUtf8Bytes (a b : JsString) : Int :=
  let bytesA := utf8Encode a
  let bytesB := utf8Encode b
  match (bytesA.zip bytesB).find? fun pair => pair.1 ≠ pair.2 with
  | some pair => (pair.1.toNat : Int) - pair.2.toNat
  | none => (bytesA.length : Int) - bytesB.length

/-- `thrown` is an exception: a field the encoder does not take. -/
inductive DigestFailure
  | invalidInput (field : String)
  | thrown
  deriving DecidableEq, Repr

section Keyed
variable {Entry : Type} (variableIdOf : Entry → JsString) (entryInvalidField : Entry → Option String)
  (entryFields : Entry → List LengthPrefixedField)

/-- The loop over the entries: the first field that is refused. -/
def entriesInvalidField : List JsString → List Entry → Option String
  | _, [] => none
  | seen, entry :: rest =>
    match entryInvalidField entry with
    | some field => some field
    | none =>
      if seen.contains (variableIdOf entry) then some "entry variableId (duplicate)"
      else entriesInvalidField (seen ++ [variableIdOf entry]) rest

attribute [grind =] entriesInvalidField

def orderedEntries (entries : List Entry) : List Entry :=
  entries.mergeSort fun a b => compareUtf8Bytes (variableIdOf a) (variableIdOf b) ≤ 0

def keyedDigestBytes (suite domain : JsString) (entries : List Entry) : Option Bytes := do
  let fields ← (orderedEntries variableIdOf entries).mapM fun entry => encodeLengthPrefixed (entryFields entry)
  encodeLengthPrefixed (.str (suite ++ lit "/" ++ domain) :: fields.map .bytes)

def computeVariableKeyedDigest (crypto : Crypto) (suite domain : JsString) (entries : List Entry) :
    Except DigestFailure JsString :=
  if suite.length = 0 then .error (.invalidInput "suite")
  else match entriesInvalidField variableIdOf entryInvalidField [] entries with
  | some field => .error (.invalidInput field)
  | none =>
    match keyedDigestBytes variableIdOf entryFields suite domain entries with
    | none => .error .thrown
    | some bytes => .ok (encodeHex (crypto.sha256 bytes))

variable {variableIdOf entryInvalidField entryFields}

theorem mem_orderedEntries {entries : List Entry} {entry : Entry} :
    entry ∈ orderedEntries variableIdOf entries ↔ entry ∈ entries :=
  (List.mergeSort_perm _ _).mem_iff

theorem entriesInvalidField_eq_none {seen : List JsString} {entries : List Entry}
    (h : entriesInvalidField variableIdOf entryInvalidField seen entries = none) :
    (∀ entry ∈ entries, entryInvalidField entry = none) ∧ (entries.map variableIdOf).Nodup ∧
      ∀ entry ∈ entries, variableIdOf entry ∉ seen := by
  induction entries generalizing seen with
  | nil => simp
  | cons entry rest ih =>
    unfold entriesInvalidField at h
    split at h
    · cases h
    · rename_i hvalid
      split_ifs at h with hseen
      obtain ⟨hvalids, hnodup, hfresh⟩ := ih h
      have hnot : ∀ other ∈ rest, variableIdOf other ≠ variableIdOf entry := fun other hother heq =>
        hfresh other hother (by simp [heq])
      refine ⟨?_, ?_, ?_⟩
      · simpa using ⟨hvalid, hvalids⟩
      · rw [List.map_cons, List.nodup_cons, List.mem_map]
        exact ⟨fun ⟨other, hother, heq⟩ => hnot other hother heq, hnodup⟩
      · simp only [List.mem_cons, forall_eq_or_imp]
        refine ⟨by simpa using hseen, fun other hother hmem => ?_⟩
        exact hfresh other hother (by simp [hmem])

/-- What a digest says about its entries. -/
structure Digested (crypto : Crypto) (suite domain : JsString) (entries : List Entry) (digest : JsString) : Prop where
  valid : ∀ entry ∈ entries, entryInvalidField entry = none
  nodup : (entries.map variableIdOf).Nodup
  bytes : ∃ bytes, keyedDigestBytes variableIdOf entryFields suite domain entries = some bytes ∧
    digest = encodeHex (crypto.sha256 bytes)

theorem computeVariableKeyedDigest_ok {crypto : Crypto} {suite domain : JsString} {entries : List Entry} {digest : JsString}
    (h : computeVariableKeyedDigest variableIdOf entryInvalidField entryFields crypto suite domain entries = .ok digest) :
    @Digested Entry variableIdOf entryInvalidField entryFields crypto suite domain entries digest := by
  unfold computeVariableKeyedDigest at h
  split_ifs at h
  split at h
  · cases h
  · rename_i hloop
    obtain ⟨hvalid, hnodup, -⟩ := entriesInvalidField_eq_none hloop
    split at h
    · cases h
    · rename_i bytes hbytes
      exact ⟨hvalid, hnodup, bytes, hbytes, (Except.ok.inj h).symm⟩

theorem keyedDigestBytes_inj {suite domain : JsString} {entries entries' : List Entry} {bytes : Bytes}
    (h : keyedDigestBytes variableIdOf entryFields suite domain entries = some bytes)
    (h' : keyedDigestBytes variableIdOf entryFields suite domain entries' = some bytes) :
    List.Forall₂ (fun a b => List.Forall₂ SameBody (entryFields a) (entryFields b))
      (orderedEntries variableIdOf entries) (orderedEntries variableIdOf entries') := by
  simp only [keyedDigestBytes, Option.bind_eq_bind, Option.bind_eq_some_iff] at h h'
  obtain ⟨fields, hfields, hbytes⟩ := h
  obtain ⟨fields', hfields', hbytes'⟩ := h'
  obtain ⟨-, hrest⟩ := List.forall₂_cons.mp (encodeLengthPrefixed_inj hbytes hbytes')
  rw [List.forall₂_map_left_iff, List.forall₂_map_right_iff] at hrest
  have hsame : fields = fields' := by
    have := map_eq_of_forall₂ (f := id) hrest fun _ _ _ => sameBody_bytes.mp
    simpa using this
  subst hsame
  refine (forall₂_common (mapM_eq_some.mp hfields) (mapM_eq_some.mp hfields')).imp ?_
  rintro a b ⟨c, ha, hb⟩
  exact encodeLengthPrefixed_inj ha hb

theorem Digested.ordered_eq {crypto : Crypto} {suite domain digest : JsString} {entries entries' : List Entry}
    (h : @Digested Entry variableIdOf entryInvalidField entryFields crypto suite domain entries digest)
    (h' : @Digested Entry variableIdOf entryInvalidField entryFields crypto suite domain entries' digest)
    (hcollide : ∀ b b', keyedDigestBytes variableIdOf entryFields suite domain entries = some b →
      keyedDigestBytes variableIdOf entryFields suite domain entries' = some b' → crypto.sha256 b = crypto.sha256 b' → b = b')
    (hinj : ∀ a ∈ entries, ∀ b ∈ entries', List.Forall₂ SameBody (entryFields a) (entryFields b) → a = b) :
    orderedEntries variableIdOf entries = orderedEntries variableIdOf entries' := by
  obtain ⟨bytes, hbytes, rfl⟩ := h.bytes
  obtain ⟨bytes', hbytes', hdigest⟩ := h'.bytes
  obtain rfl := hcollide bytes bytes' hbytes hbytes' (encodeHex_inj hdigest)
  have hordered := keyedDigestBytes_inj hbytes hbytes'
  refine List.forall₂_eq_eq_eq ▸ List.forall₂_iff_zip.mpr ⟨hordered.length_eq, fun {a b} hab => ?_⟩
  have ha := mem_orderedEntries.mp (List.of_mem_zip hab).1
  have hb := mem_orderedEntries.mp (List.of_mem_zip hab).2
  exact hinj a ha b hb ((List.forall₂_iff_zip.mp hordered).2 hab)

end Keyed

/-! ## The values digest of an environment -/

/-- One active variable's latest version and the hash of its signed bytes. -/
structure EnvValuesDigestEntry where
  variableId : JsString
  version : Nat
  valueSigHashHex : JsString
  deriving DecidableEq, Repr

def isLowercaseHexOfLength (value : JsString) (length : Nat) : Bool :=
  value.length = length && (decodeHex value).isSome

def valuesDigestEntryInvalidField (entry : EnvValuesDigestEntry) : Option String :=
  if entry.variableId.length = 0 then some "entry variableId"
  else if !(entry.version ≤ Json.maxSafeInteger) || entry.version < 1 then some "entry version"
  else if !isLowercaseHexOfLength entry.valueSigHashHex 64 then some "entry valueSigHashHex"
  else none

def valuesDigestEntryFields (entry : EnvValuesDigestEntry) : List LengthPrefixedField :=
  [.str entry.variableId, .num entry.version, .str entry.valueSigHashHex]

def valuesDigestDomain : JsString := lit "env-values-digest"

def computeEnvValuesDigest (crypto : Crypto) (suite : JsString) (entries : List EnvValuesDigestEntry) :
    Except DigestFailure JsString :=
  computeVariableKeyedDigest EnvValuesDigestEntry.variableId valuesDigestEntryInvalidField valuesDigestEntryFields crypto
    suite valuesDigestDomain entries

/-- The bytes whose hash the digest is. -/
def valuesDigestBytes (suite : JsString) (entries : List EnvValuesDigestEntry) : Option Bytes :=
  keyedDigestBytes EnvValuesDigestEntry.variableId valuesDigestEntryFields suite valuesDigestDomain entries

theorem valueSigHashHex_ascii {entry : EnvValuesDigestEntry} (h : valuesDigestEntryInvalidField entry = none) :
    ∀ u ∈ entry.valueSigHashHex, u.toNat < 0x80 := by
  unfold valuesDigestEntryInvalidField at h
  split_ifs at h with hid hversion hhash
  simp only [isLowercaseHexOfLength, Bool.not_eq_true', Bool.not_eq_false, Bool.and_eq_true,
    Option.isSome_iff_exists] at hhash
  obtain ⟨-, decoded, hdecoded⟩ := hhash
  exact decodeHex_ascii _ decoded hdecoded

theorem entry_eq_of_sameBody {a b : EnvValuesDigestEntry} (ha : valuesDigestEntryInvalidField a = none)
    (hida : wellFormed a.variableId = true) (hidb : wellFormed b.variableId = true)
    (h : List.Forall₂ SameBody (valuesDigestEntryFields a) (valuesDigestEntryFields b)) : a = b := by
  simp only [valuesDigestEntryFields, List.forall₂_cons, List.Forall₂.nil, and_true] at h
  obtain ⟨hid, hversion, hhash⟩ := h
  have hid := utf8Encode_inj_of_wellFormed hida hidb (sameBody_str.mp hid)
  have hversion := sameBody_num hversion
  have hhash := utf8Encode_inj_of_ascii (valueSigHashHex_ascii ha) (sameBody_str.mp hhash)
  cases a
  cases b
  simp_all

/-- Two enumerations with one digest, under a hash that does not collide on them, have the same entries. -/
theorem mem_iff_of_digest {crypto : Crypto} {suite digest : JsString} {entries entries' : List EnvValuesDigestEntry}
    (h : computeEnvValuesDigest crypto suite entries = .ok digest)
    (h' : computeEnvValuesDigest crypto suite entries' = .ok digest)
    (hcollide : ∀ b b', valuesDigestBytes suite entries = some b → valuesDigestBytes suite entries' = some b' →
      crypto.sha256 b = crypto.sha256 b' → b = b')
    (hids : ∀ entry ∈ entries, wellFormed entry.variableId = true)
    (hids' : ∀ entry ∈ entries', wellFormed entry.variableId = true) (entry : EnvValuesDigestEntry) :
    entry ∈ entries ↔ entry ∈ entries' := by
  have hd := computeVariableKeyedDigest_ok h
  have heq := hd.ordered_eq (computeVariableKeyedDigest_ok h') hcollide fun a ha b hb hab =>
    entry_eq_of_sameBody (hd.valid a ha) (hids a ha) (hids' b hb) hab
  rw [← mem_orderedEntries, heq, mem_orderedEntries]

end Maruhi.Checkpoint
