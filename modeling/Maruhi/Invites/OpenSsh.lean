import Maruhi.Chain.Injective
import Maruhi.Lib.Base64
import Mathlib.Data.List.DropRight

/-!
# OpenSSH key lines (`invite-link.ts`)

A public key as the line that a host shows of it, and the key that such a line is read as.
-/

open Text Utf8 Framing Base64

namespace Maruhi.Invites
open Chain

def ed25519KeyBytes : Nat := 32

def opensshEd25519Type : JsString := lit "ssh-ed25519"

/-- `thrown` is an exception: a read outside of the blob. -/
inductive OpenSshFailure
  | invalidInput (field : String)
  | thrown
  deriving DecidableEq

def base64Encode (bytes : Bytes) : JsString := btoa bytes

/-- The shape is checked first, `^[A-Za-z0-9+/]*={0,2}$`. None where the text is refused. -/
def base64Decode (text : JsString) : Option Bytes :=
  if text.length % 4 ≠ 0 || !plainShape text then none else atob text

def encodeOpenSshEd25519PublicKey (publicKey : Bytes) : Except OpenSshFailure JsString :=
  if publicKey.length ≠ ed25519KeyBytes then .error (.invalidInput "signing public key length")
  else match encodeLengthPrefixed [.str opensshEd25519Type, .bytes publicKey] with
  | none => .error .thrown
  | some blob => .ok (opensshEd25519Type ++ lit " " ++ base64Encode blob)

def trimEnd (s : JsString) : JsString := s.rdropWhile isWhitespace

/-- `DataView.getUint32`, big-endian: none where it throws. -/
def getUint32 (bytes : Bytes) (offset : Nat) : Option Nat :=
  match bytes.drop offset with
  | a :: b :: c :: d :: _ => some (((a.toNat * 256 + b.toNat) * 256 + c.toNat) * 256 + d.toNat)
  | _ => none

/-- What the blob of a line holds. -/
def parseBlob (blob : Bytes) : Except OpenSshFailure Bytes :=
  let expectedType := utf8Encode opensshEd25519Type
  match getUint32 blob 0 with
  | none => .error .thrown
  | some typeLength =>
    if typeLength ≠ expectedType.length then .error (.invalidInput "openssh public key line")
    else
      let typeBytes := (blob.drop 4).take expectedType.length
      if encodeHex typeBytes ≠ encodeHex expectedType then .error (.invalidInput "openssh public key line")
      else match getUint32 blob (4 + expectedType.length) with
      | none => .error .thrown
      | some keyLength =>
        if keyLength ≠ ed25519KeyBytes then .error (.invalidInput "openssh public key line")
        else .ok (blob.drop (8 + expectedType.length))

def parseOpenSshEd25519PublicKey (line : JsString) : Except OpenSshFailure Bytes :=
  let parts := (trimEnd line).splitOn 32
  let expectedType := utf8Encode opensshEd25519Type
  let expectedLength := 4 + expectedType.length + 4 + ed25519KeyBytes
  let expectedEncodedLength := (expectedLength + 2) / 3 * 4
  if parts[0]? ≠ some opensshEd25519Type then .error (.invalidInput "openssh public key line")
  else match parts[1]? with
  | none => .error (.invalidInput "openssh public key line")
  | some encoded =>
    if encoded.length ≠ expectedEncodedLength then .error (.invalidInput "openssh public key line")
    else match base64Decode encoded with
    | none => .error (.invalidInput "openssh public key line")
    | some blob =>
      if blob.length ≠ expectedLength then .error (.invalidInput "openssh public key line")
      else parseBlob blob

/-! ## The blob -/

theorem uint32be_eq (a b c d : UInt8) :
    uint32be (((a.toNat * 256 + b.toNat) * 256 + c.toNat) * 256 + d.toNat) = [a, b, c, d] := by
  have hbyte : ∀ (u : UInt8) (n : Nat), n % 256 = u.toNat → UInt8.ofNat n = u := fun u n h =>
    UInt8.toNat_inj.mp ((UInt8.toNat_ofNat' ..).trans h)
  have ha := a.toNat_lt
  have hb := b.toNat_lt
  have hc := c.toNat_lt
  have hd := d.toNat_lt
  unfold uint32be
  rw [hbyte a _ (by omega), hbyte b _ (by omega), hbyte c _ (by omega), hbyte d _ (by omega)]

theorem getUint32_some {bytes : Bytes} {offset n : Nat} (h : getUint32 bytes offset = some n) :
    (bytes.drop offset).take 4 = uint32be n := by
  unfold getUint32 at h
  split at h
  · rename_i a b c d rest heq
    cases h
    rw [heq, uint32be_eq]
    rfl
  · cases h

theorem getUint32_uint32be {pre post : Bytes} {n : Nat} (hn : n < 2 ^ 32) :
    getUint32 (pre ++ (uint32be n ++ post)) pre.length = some n := by
  unfold getUint32
  rw [List.drop_left]
  simp only [uint32be, List.cons_append, UInt8.toNat_ofNat']
  congr 1
  omega

/-- Every read of a blob of the expected length is inside of it. -/
theorem getUint32_isSome {bytes : Bytes} {offset : Nat} (h : offset + 4 ≤ bytes.length) :
    (getUint32 bytes offset).isSome = true := by
  unfold getUint32
  have hlength : 4 ≤ (bytes.drop offset).length := by
    rw [List.length_drop]
    omega
  rcases hdrop : bytes.drop offset with _ | ⟨a, _ | ⟨b, _ | ⟨c, _ | ⟨d, rest⟩⟩⟩⟩ <;> rw [hdrop] at hlength <;>
    simp at hlength ⊢

theorem drop_cut (bytes : Bytes) (i n : Nat) : bytes.drop i = (bytes.drop i).take n ++ bytes.drop (i + n) := by
  rw [← List.drop_drop, List.take_append_drop]

def keyBlob (key : Bytes) : Bytes :=
  uint32be 11 ++ (utf8Encode opensshEd25519Type ++ (uint32be ed25519KeyBytes ++ key))

theorem encodeLengthPrefixed_key {key : Bytes} (hkey : key.length = ed25519KeyBytes) :
    encodeLengthPrefixed [.str opensshEd25519Type, .bytes key] = some (keyBlob key) := by
  have hbytes : fieldOk (.bytes key) = some key := by
    unfold fieldOk
    simp only [fieldBody, Option.bind_eq_bind, Option.bind_some]
    rw [if_neg (by rw [hkey]; decide)]
  have htype : fieldOk (.str opensshEd25519Type) = some (utf8Encode opensshEd25519Type) := by decide
  unfold encodeLengthPrefixed
  rw [List.mapM_cons, List.mapM_cons, htype, hbytes]
  simp only [List.mapM_nil, Option.pure_def, Option.bind_eq_bind, Option.bind_some, Option.map_some, frames,
    List.flatMap_cons, List.flatMap_nil, frame, List.append_nil, hkey]
  rw [show (utf8Encode opensshEd25519Type).length = 11 by decide, List.append_assoc]
  rfl

theorem parseBlob_ok_iff {blob key : Bytes} (hlength : blob.length = 51) :
    parseBlob blob = .ok key ↔ key.length = ed25519KeyBytes ∧ blob = keyBlob key := by
  have htype : (utf8Encode opensshEd25519Type).length = 11 := by decide
  unfold parseBlob
  dsimp only
  rw [htype]
  constructor
  · intro h
    split at h
    · cases h
    · rename_i typeLength hfirst
      split_ifs at h with htypeLength htypeBytes
      split at h
      · cases h
      · rename_i keyLength hsecond
        split_ifs at h with hkeyLength
        cases h
        rw [not_not] at htypeLength htypeBytes hkeyLength
        have hfirst := getUint32_some hfirst
        have hsecond := getUint32_some hsecond
        have hname := encodeHex_inj htypeBytes
        rw [htypeLength, List.drop_zero] at hfirst
        rw [hkeyLength] at hsecond
        refine ⟨by rw [List.length_drop, hlength]; rfl, ?_⟩
        unfold keyBlob
        rw [← hfirst, ← hname, ← hsecond]
        exact (drop_cut blob 0 4).trans (congrArg _ ((drop_cut blob 4 11).trans (congrArg _ (drop_cut blob 15 4))))
  · rintro ⟨hkey, rfl⟩
    have hfirst : getUint32 (keyBlob key) 0 = some 11 := @getUint32_uint32be [] _ 11 (by decide)
    have hname : ((keyBlob key).drop 4).take 11 = utf8Encode opensshEd25519Type := by
      unfold keyBlob
      rw [List.drop_left' (by rfl), List.take_left' htype]
    have hsecond : getUint32 (keyBlob key) (4 + 11) = some ed25519KeyBytes := by
      have hread := @getUint32_uint32be (uint32be 11 ++ utf8Encode opensshEd25519Type) key ed25519KeyBytes (by decide)
      rw [List.length_append, htype, List.append_assoc] at hread
      exact hread
    have hrest : (keyBlob key).drop (8 + 11) = key := by
      unfold keyBlob
      rw [← List.append_assoc, ← List.append_assoc]
      exact List.drop_left' (by rw [List.length_append, List.length_append, htype]; rfl)
    rw [hfirst]
    dsimp only
    rw [if_neg (by decide), hname, if_neg (by simp), hsecond]
    dsimp only
    rw [if_neg (by simp), hrest]

theorem parseBlob_reads {blob : Bytes} (hlength : blob.length = 51) : parseBlob blob ≠ .error .thrown := by
  intro h
  have htype : (utf8Encode opensshEd25519Type).length = 11 := by decide
  obtain ⟨first, hfirst⟩ := Option.isSome_iff_exists.mp (@getUint32_isSome blob 0 (by omega))
  obtain ⟨second, hsecond⟩ := Option.isSome_iff_exists.mp (@getUint32_isSome blob (4 + 11) (by omega))
  unfold parseBlob at h
  dsimp only at h
  rw [htype, hfirst, hsecond] at h
  dsimp only at h
  split_ifs at h <;> cases h

/-! ## The line -/

/-- The line of a key. -/
def keyLine (key : Bytes) : JsString := opensshEd25519Type ++ 32 :: btoa (keyBlob key)

theorem encodeOpenSshEd25519PublicKey_eq {key : Bytes} (hkey : key.length = ed25519KeyBytes) :
    encodeOpenSshEd25519PublicKey key = .ok (keyLine key) := by
  unfold encodeOpenSshEd25519PublicKey
  rw [if_neg (not_not.mpr hkey), encodeLengthPrefixed_key hkey]
  rfl

theorem base64Decode_some {text : JsString} {bytes : Bytes} (h : base64Decode text = some bytes)
    (hfull : 4 * bytes.length = 3 * text.length) : text = btoa bytes := by
  unfold base64Decode at h
  split_ifs at h with hrefused
  simp only [Bool.or_eq_true, decide_eq_true_eq, Bool.not_eq_true', not_or, not_not, Bool.not_eq_false] at hrefused
  exact btoa_of_atob hrefused.2 hrefused.1 h hfull

theorem base64Decode_btoa (bytes : Bytes) : base64Decode (btoa bytes) = some bytes := by
  have hlength := length_btoa bytes
  unfold base64Decode
  rw [if_neg, atob_btoa]
  simp only [Bool.or_eq_true, decide_eq_true_eq, Bool.not_eq_true', not_or, not_not, Bool.not_eq_false]
  exact ⟨by omega, (plainShape_btoa bytes).1⟩

theorem btoa_unit (bytes : Bytes) : ∀ u ∈ btoa bytes, u ≠ 32 ∧ isWhitespace u = false := by
  have hletters : ∀ n < 64, digit n ≠ 32 ∧ isWhitespace (digit n) = false := by decide
  intro u hu
  rcases (plainShape_btoa bytes).2 u hu with hvalue | rfl
  · obtain ⟨n, hn⟩ := Option.isSome_iff_exists.mp hvalue
    obtain ⟨hlt, rfl⟩ := digit_of_value? hn
    exact hletters n hlt
  · decide

theorem length_keyBlob {key : Bytes} (hkey : key.length = ed25519KeyBytes) : (keyBlob key).length = 51 := by
  unfold keyBlob
  simp only [List.length_append, hkey]
  decide

theorem parseOpenSsh_ok_iff (line : JsString) (key : Bytes) :
    parseOpenSshEd25519PublicKey line = .ok key ↔ key.length = ed25519KeyBytes ∧
      ∃ rest, (trimEnd line).splitOn 32 = opensshEd25519Type :: btoa (keyBlob key) :: rest := by
  have htype : (utf8Encode opensshEd25519Type).length = 11 := by decide
  unfold parseOpenSshEd25519PublicKey
  dsimp only
  rw [htype]
  generalize (trimEnd line).splitOn 32 = parts
  constructor
  · intro h
    split_ifs at h with hfirst
    split at h
    · cases h
    · rename_i encoded hsecond
      split_ifs at h with hencoded
      split at h
      · cases h
      · rename_i blob hblob
        split_ifs at h with hlength
        rw [not_not] at hfirst hencoded hlength
        obtain ⟨hkey, rfl⟩ := (parseBlob_ok_iff hlength).mp h
        have htext := base64Decode_some hblob (by rw [hencoded, hlength]; rfl)
        rcases parts with _ | ⟨first, _ | ⟨second, rest⟩⟩
        · cases hfirst
        · cases hsecond
        · cases hfirst
          cases hsecond
          exact ⟨hkey, rest, by rw [← htext]⟩
  · rintro ⟨hkey, rest, rfl⟩
    have hlength := length_keyBlob hkey
    have hencoded : (btoa (keyBlob key)).length = 68 := by rw [length_btoa, hlength]
    rw [if_neg (by simp)]
    dsimp only [List.getElem?_cons_succ, List.getElem?_cons_zero]
    rw [if_neg (by rw [hencoded]; decide), base64Decode_btoa]
    dsimp only
    rw [if_neg (by rw [hlength]; decide)]
    exact (parseBlob_ok_iff hlength).mpr ⟨hkey, rfl⟩

theorem splitOn_keyLine (key : Bytes) : (keyLine key).splitOn 32 = [opensshEd25519Type, btoa (keyBlob key)] := by
  unfold keyLine
  rw [List.splitOn_append_cons_self_of_not_mem (by decide),
    List.splitOn_eq_singleton fun hmem => (btoa_unit _ 32 hmem).1 rfl]

theorem trimEnd_keyLine {key : Bytes} (hkey : key.length = ed25519KeyBytes) : trimEnd (keyLine key) = keyLine key := by
  have hlength := length_btoa (keyBlob key)
  rw [length_keyBlob hkey] at hlength
  rcases List.eq_nil_or_concat (btoa (keyBlob key)) with hnil | ⟨front, u, hlast⟩
  · rw [hnil] at hlength
    cases hlength
  · rw [List.concat_eq_append] at hlast
    have hspace := (btoa_unit (keyBlob key) u (by simp [hlast])).2
    have hline : keyLine key = (opensshEd25519Type ++ 32 :: front) ++ [u] := by
      rw [keyLine, hlast, List.append_assoc, List.cons_append]
    rw [trimEnd, hline, List.rdropWhile_concat_neg _ _ _ (by rw [hspace]; decide)]

/-- One text for every key, up to a comment and to spaces at the end, and no read goes wrong. -/
theorem openssh_line_codec :
    (∀ key : Bytes, key.length = ed25519KeyBytes →
      ∃ line, encodeOpenSshEd25519PublicKey key = .ok line ∧ parseOpenSshEd25519PublicKey line = .ok key) ∧
    (∀ line key, parseOpenSshEd25519PublicKey line = .ok key →
      ∃ text, encodeOpenSshEd25519PublicKey key = .ok text ∧
        (trimEnd line = text ∨ ∃ comment, comment ≠ [] ∧ trimEnd line = text ++ lit " " ++ comment)) ∧
    ∀ line, parseOpenSshEd25519PublicKey line ≠ .error .thrown := by
  refine ⟨fun key hkey => ⟨_, encodeOpenSshEd25519PublicKey_eq hkey, ?_⟩, fun line key h => ?_, fun line h => ?_⟩
  · rw [parseOpenSsh_ok_iff, trimEnd_keyLine hkey, splitOn_keyLine]
    exact ⟨hkey, [], rfl⟩
  · obtain ⟨hkey, rest, hparts⟩ := (parseOpenSsh_ok_iff line key).mp h
    refine ⟨_, encodeOpenSshEd25519PublicKey_eq hkey, ?_⟩
    have hjoin := @List.intercalate_splitOn _ (trimEnd line) _ _ 32
    rw [hparts, List.intercalate_cons_cons] at hjoin
    cases rest with
    | nil =>
      rw [List.intercalate_singleton, List.append_assoc] at hjoin
      exact Or.inl hjoin.symm
    | cons next rest =>
      have hline : trimEnd line = keyLine key ++ lit " " ++ List.intercalate [32] (next :: rest) := by
        rw [← hjoin, List.intercalate_cons_cons]
        unfold keyLine
        simp only [List.append_assoc, List.cons_append, List.nil_append]
        rfl
      refine Or.inr ⟨_, fun hnil => ?_, hline⟩
      rw [hnil, List.append_nil] at hline
      have hne : trimEnd line ≠ [] := by simp [hline, lit]
      refine List.rdropWhile_last_not isWhitespace line hne ?_
      change isWhitespace ((trimEnd line).getLast hne) = true
      rw [List.getLast_congr hne (by simp [lit]) hline, List.getLast_append_of_ne_nil _ (by decide)]
      decide
  · -- The blob has the expected length before it is read.
    unfold parseOpenSshEd25519PublicKey at h
    dsimp only at h
    split at h
    · cases h
    · split at h
      · cases h
      · split at h
        · cases h
        · split at h
          · cases h
          · split at h
            · cases h
            · rename_i hlength
              exact parseBlob_reads (not_not.mp hlength) h

end Maruhi.Invites
