import Maruhi.Chain.Wire
import Maruhi.Lib.Regroup
import Maruhi.Lib.Utf8
import Mathlib.Data.List.GetD

/-!
# Handoff codes (`master-wrap.ts`)

A public key and the start of its hash, in Base32 and in groups of four.
-/

open Text Utf8 Regroup

namespace Maruhi.MasterWrap
open Chain

def x25519PublicKeyBytes : Nat := 32

def handoffCodeChecksumBytes : Nat := 4

def handoffCodePayloadBytes : Nat := x25519PublicKeyBytes + handoffCodeChecksumBytes

/-- `Math.ceil((HANDOFF_CODE_PAYLOAD_BYTES * 8) / 5)`. -/
def handoffCodeSymbols : Nat := (handoffCodePayloadBytes * 8 + 4) / 5

def handoffCodeGroup : Nat := 4

def base32Alphabet : JsString := lit "ABCDEFGHIJKLMNOPQRSTUVWXYZ234567"

/-! ## Base32 -/

/-- The variables of the encoder's loop. -/
structure EncodeState where
  bits : Nat
  acc : BitVec 32
  out : JsString

/-- What `out += BASE32_ALPHABET[i]` appends. -/
def symbolAt (i : BitVec 32) : JsString := (base32Alphabet[i.toNat]?).elim (lit "undefined") fun c => [c]

/-- `while (bits >= 5)`, as many times as `fuel` says. -/
def drain : Nat → EncodeState → EncodeState
  | 0, state => state
  | fuel + 1, state =>
    if 5 ≤ state.bits then
      let bits := state.bits - 5
      drain fuel ⟨bits, state.acc &&& ((1#32 <<< bits) - 1#32), state.out ++ symbolAt (state.acc.sshiftRight bits &&& 31#32)⟩
    else state

attribute [grind =] drain

/-- Every round takes bits, so as many rounds as there are bits are enough. -/
def encodeByte (state : EncodeState) (byte : UInt8) : EncodeState :=
  let bits := state.bits + 8
  drain bits ⟨bits, state.acc <<< 8 ||| byte.toBitVec.setWidth 32, state.out⟩

def encodeBytes (bytes : Bytes) : EncodeState := bytes.foldl encodeByte ⟨0, 0, []⟩

def base32Encode (bytes : Bytes) : JsString :=
  let state := encodeBytes bytes
  if 0 < state.bits then state.out ++ symbolAt (state.acc <<< (5 - state.bits) &&& 31#32) else state.out

/-- `groups.join("-")` over the slices of `symbols`. -/
def hyphenated (symbols : JsString) : JsString :=
  List.intercalate [45] ((List.range ((symbols.length + handoffCodeGroup - 1) / handoffCodeGroup)).map fun i =>
    (symbols.drop (handoffCodeGroup * i)).take handoffCodeGroup)

/-- `payload.set`: what the arrays hold, in 36 bytes. -/
def handoffPayload (crypto : Crypto) (publicKey : Bytes) : Bytes :=
  let checksum := (crypto.sha256 publicKey).take handoffCodeChecksumBytes
  publicKey ++ checksum ++ List.replicate (handoffCodeChecksumBytes - checksum.length) 0

/-- A result, or the name of the input that is refused. -/
def encodeHandoffCode (crypto : Crypto) (ephemeralPublicKey : Bytes) : Except String JsString :=
  if ephemeralPublicKey.length ≠ x25519PublicKeyBytes then .error "ephemeral public key length"
  else .ok (hyphenated (base32Encode (handoffPayload crypto ephemeralPublicKey)))

/-! ## The decoder -/

/-- `toUpperCase` in what is relied on of it: on ASCII it writes the letters as capitals. -/
structure UpperCase where
  toUpperCase : JsString → JsString
  ascii : ∀ s, (∀ u ∈ s, u.toNat < 0x80) → toUpperCase s = s.map fun u => if 97 ≤ u ∧ u ≤ 122 then u - 32 else u

/-- `text.replace(/[\s-]/g, "")`. -/
def stripped (text : JsString) : JsString := text.filter fun u => !(isWhitespace u || u = 45)

def indexOf (text search : JsString) : Option Nat :=
  (List.range (text.length + 1)).find? fun i => search.isPrefixOf (text.drop i)

structure DecodeState where
  bits : Nat
  acc : BitVec 32
  payload : Bytes
  offset : Nat

/-- None where a character is no symbol. -/
def decodeSymbol (state : DecodeState) (symbol : JsString) : Option DecodeState := do
  let value ← indexOf base32Alphabet symbol
  let acc := state.acc <<< 5 ||| BitVec.ofNat 32 value
  let bits := state.bits + 5
  if 8 ≤ bits then
    let bits := bits - 8
    pure ⟨bits, acc &&& ((1#32 <<< bits) - 1#32),
      state.payload.set state.offset (UInt8.ofBitVec ((acc.sshiftRight bits &&& 0xff#32).setWidth 8)), state.offset + 1⟩
  else pure ⟨bits, acc, state.payload, state.offset⟩

def decodeStart : DecodeState := ⟨0, 0, List.replicate handoffCodePayloadBytes 0, 0⟩

/-- The differing bits of the checksums. -/
def checksumDiff (expected actual : Bytes) : UInt8 :=
  (List.range handoffCodeChecksumBytes).foldl (fun diff i => diff ||| (expected.getD i 0 ^^^ actual.getD i 0)) 0

def decodeHandoffCode (crypto : Crypto) (upper : UpperCase) (text : JsString) : Except String Bytes :=
  let symbols := upper.toUpperCase (stripped text)
  if symbols.length ≠ handoffCodeSymbols then .error "handoff code"
  else match (characters symbols).foldlM decodeSymbol decodeStart with
  | none => .error "handoff code"
  | some state =>
    if state.acc ≠ 0 || state.offset ≠ handoffCodePayloadBytes then .error "handoff code"
    else
      let publicKey := state.payload.take x25519PublicKeyBytes
      let expected := (crypto.sha256 publicKey).take handoffCodeChecksumBytes
      let actual := state.payload.drop x25519PublicKeyBytes
      if checksumDiff expected actual ≠ 0 then .error "handoff code" else .ok publicKey

/-! ## Symbols -/

def letter (d : Nat) : UInt16 := base32Alphabet.getD d 0

theorem letter_plain : ∀ d < 32, (letter d).toNat < 0x80 ∧ isWhitespace (letter d) = false ∧ letter d ≠ 45 ∧
    ¬(97 ≤ letter d ∧ letter d ≤ 122) := by decide

theorem indexOf_letter : ∀ d < 32, indexOf base32Alphabet [letter d] = some d := by decide

theorem symbolAt_eq {i : BitVec 32} (h : i.toNat < 32) : symbolAt i = [letter i.toNat] := by
  have hget : base32Alphabet[i.toNat]? = some (letter i.toNat) := by
    rw [letter, List.getD_eq_getElem?_getD, List.getElem?_eq_getElem (show i.toNat < base32Alphabet.length from h)]
    rfl
  rw [symbolAt, hget]
  rfl

theorem symbol_of_indexOf {s t : JsString} {v : Nat} (ht : t ∈ characters s) (h : indexOf base32Alphabet t = some v) :
    v < 32 ∧ t = [letter v] := by
  unfold indexOf at h
  have hprefix := List.find?_some h
  obtain ⟨rest, hrest⟩ := List.isPrefixOf_iff_prefix.mp hprefix
  have hhead : ∀ {u tail}, u :: tail = base32Alphabet.drop v → base32Alphabet[v]? = some u := by
    intro u tail heq
    have := congrArg List.head? heq
    rw [List.head?_drop] at this
    exact this.symm
  rcases characters_cases ht with ⟨u, rfl⟩ | ⟨u, w, rfl, hhigh⟩
  · have hget := hhead hrest
    obtain ⟨hlt, -⟩ := List.getElem?_eq_some_iff.mp hget
    refine ⟨hlt, ?_⟩
    rw [letter, List.getD_eq_getElem?_getD, hget]
    rfl
  · have hmem : u ∈ base32Alphabet := List.mem_of_getElem? (hhead hrest)
    have hplain : base32Alphabet.all (fun c => !isHigh c) = true := by decide
    have hlow := List.all_eq_true.mp hplain u hmem
    rw [hhigh] at hlow
    cases hlow

/-! ## The encoder's loop -/

/-- What the encoder holds once `bytes` are read. -/
structure Encoding (bytes : Bytes) (digits : List Nat) (state : EncodeState) : Prop where
  regrouped : Regrouped 8 5 (bytes.map UInt8.toNat) digits state.bits state.acc.toNat
  out_eq : state.out = digits.map letter

/-- Up to 12 bits, no shift loses one. -/
theorem Encoding.drain {bytes : Bytes} (fuel : Nat) {digits : List Nat} {state : EncodeState} (h : Encoding bytes digits state)
    (hbits : state.bits ≤ 12) (hfuel : state.bits ≤ 5 * fuel) :
    ∃ digits', Encoding bytes digits' (drain fuel state) ∧ (MasterWrap.drain fuel state).bits < 5 := by
  induction fuel generalizing digits state with
  | zero => exact ⟨digits, h, show state.bits < 5 by omega⟩
  | succ fuel ih =>
    unfold MasterWrap.drain
    split
    · rename_i hfull
      have hpow : 2 ^ state.bits ≤ 2 ^ 12 := Nat.pow_le_pow_right (by decide) hbits
      have hacc : state.acc.toNat < 2 ^ 31 := by
        have := h.regrouped.acc_lt
        omega
      have hdigit : (state.acc.sshiftRight (state.bits - 5) &&& 31#32).toNat = state.acc.toNat / 2 ^ (state.bits - 5) := by
        have hemitted := (h.regrouped.emit hfull).output_lt _ (List.mem_append_right _ List.mem_cons_self)
        rw [BitVec.toNat_and, toNat_shift hacc]
        exact (Nat.and_two_pow_sub_one_eq_mod _ 5).trans (Nat.mod_eq_of_lt hemitted)
      have hlt := (h.regrouped.emit hfull).output_lt _ (List.mem_append_right _ List.mem_cons_self)
      refine @ih (digits ++ [state.acc.toNat / 2 ^ (state.bits - 5)]) _ ⟨?_, ?_⟩ ?_ ?_
      · have hemit := h.regrouped.emit hfull
        rwa [← toNat_mask (by omega)] at hemit
      · dsimp only
        rw [symbolAt_eq (by rw [hdigit]; exact hlt), hdigit, h.out_eq, List.map_append]
        rfl
      · dsimp only
        omega
      · dsimp only
        omega
    · exact ⟨digits, h, by omega⟩

theorem encodeBytes_encoding (bytes : Bytes) :
    ∃ digits, Encoding bytes digits (encodeBytes bytes) ∧ (encodeBytes bytes).bits < 5 := by
  induction bytes using List.reverseRecOn with
  | nil => exact ⟨[], ⟨.start, rfl⟩, by decide⟩
  | append_singleton bytes byte ih =>
    obtain ⟨digits, h, hbits⟩ := ih
    have hstep : encodeBytes (bytes ++ [byte]) = encodeByte (encodeBytes bytes) byte := by
      rw [encodeBytes, List.foldl_append]
      rfl
    rw [hstep]
    have hbyte : (byte.toBitVec.setWidth 32).toNat = byte.toNat := by
      rw [BitVec.toNat_setWidth]
      exact Nat.mod_eq_of_lt (by have := byte.toNat_lt; simp only [UInt8.toNat_toBitVec]; omega)
    have hlt : byte.toNat < 2 ^ 8 := byte.toNat_lt
    have hpush := h.regrouped.push hlt
    rw [← hbyte, ← (fits_of_lt h.regrouped.acc_lt (by rw [hbyte]; exact hlt) (by omega)).1] at hpush
    refine @Encoding.drain _ _ digits _ ⟨?_, h.out_eq⟩ ?_ ?_
    · rw [List.map_append, List.map_singleton, ← hbyte]
      exact hpush
    · dsimp only
      omega
    · dsimp only
      omega

theorem base32Encode_digits (bytes : Bytes) : ∃ digits, base32Encode bytes = digits.map letter ∧ (∀ d ∈ digits, d < 32) ∧
    digits.length = (bytes.length * 8 + 4) / 5 ∧
    value 5 digits = value 8 (bytes.map UInt8.toNat) * 2 ^ (5 * digits.length - 8 * bytes.length) := by
  obtain ⟨digits, h, hbits⟩ := encodeBytes_encoding bytes
  have hsize := h.regrouped.size_eq
  rw [List.length_map] at hsize
  unfold base32Encode
  dsimp only
  split
  · rename_i hpos
    obtain ⟨hvalue, hlt⟩ := h.regrouped.pad (show (encodeBytes bytes).bits ≤ 5 by omega)
    have hpow : 2 ^ (encodeBytes bytes).bits ≤ 2 ^ 4 := Nat.pow_le_pow_right (by decide) (by omega)
    have hacc := h.regrouped.acc_lt
    have hshift : ((encodeBytes bytes).acc <<< (5 - (encodeBytes bytes).bits) &&& 31#32).toNat =
        (encodeBytes bytes).acc.toNat * 2 ^ (5 - (encodeBytes bytes).bits) := by
      rw [BitVec.toNat_and, BitVec.toNat_shiftLeft, Nat.shiftLeft_eq, Nat.mod_eq_of_lt (by omega)]
      exact (Nat.and_two_pow_sub_one_eq_mod _ 5).trans (Nat.mod_eq_of_lt hlt)
    refine ⟨digits ++ [(encodeBytes bytes).acc.toNat * 2 ^ (5 - (encodeBytes bytes).bits)], ?_, ?_, ?_, ?_⟩
    · rw [h.out_eq, symbolAt_eq (by rw [hshift]; exact hlt), hshift, List.map_append]
      rfl
    · intro d hd
      rcases List.mem_append.mp hd with hd | hd
      · exact h.regrouped.output_lt d hd
      · rw [List.mem_singleton.mp hd]
        exact hlt
    · rw [List.length_append, List.length_singleton]
      omega
    · rw [hvalue, List.length_append, List.length_singleton]
      congr 2
      omega
  · have hzero : (encodeBytes bytes).bits = 0 := by omega
    refine ⟨digits, h.out_eq, h.regrouped.output_lt, by omega, ?_⟩
    have hvalue := h.regrouped.value_eq
    have hacc := h.regrouped.acc_lt
    rw [hzero] at hvalue hacc hsize
    rw [show 5 * digits.length - 8 * bytes.length = 0 by omega]
    omega

/-! ## The decoder's loop -/

/-- What the decoder holds once symbols are read. -/
structure Decoding (digits : List Nat) (state : DecodeState) : Prop where
  bits_lt : state.bits < 8
  written : ∃ out, Regrouped 5 8 digits out state.bits state.acc.toNat ∧ state.offset = out.length ∧
    state.payload = out.map UInt8.ofNat ++ List.replicate (handoffCodePayloadBytes - out.length) 0

theorem decodeStart_decoding : Decoding [] decodeStart := ⟨by decide, [], .start, rfl, rfl⟩

theorem Decoding.symbol {digits : List Nat} {state : DecodeState} (h : Decoding digits state) {v : Nat} (hv : v < 32)
    (hroom : digits.length < handoffCodeSymbols) :
    ∃ state', decodeSymbol state [letter v] = some state' ∧ Decoding (digits ++ [v]) state' := by
  obtain ⟨hbits, out, hregrouped, hoffset, hpayload⟩ := h
  have hvalue : (BitVec.ofNat 32 v).toNat = v := by
    rw [BitVec.toNat_ofNat]
    exact Nat.mod_eq_of_lt (by omega)
  have hpush := hregrouped.push (show v < 2 ^ 5 from hv)
  have hfits : Fits state.acc (BitVec.ofNat 32 v) 5 :=
    fits_of_lt hregrouped.acc_lt (by rw [hvalue]; exact hv) (by omega)
  nth_rewrite 2 [← hvalue] at hpush
  rw [← hfits.1] at hpush
  unfold decodeSymbol
  rw [indexOf_letter v hv]
  simp only [Option.bind_eq_bind, Option.bind_some, Option.pure_def]
  split
  · rename_i hfull
    have hemit := hpush.emit hfull
    have hlt := hemit.output_lt _ (List.mem_append_right _ List.mem_cons_self)
    have hsize := hemit.size_eq
    rw [List.length_append, List.length_singleton, List.length_append, List.length_singleton] at hsize
    have hspace : out.length < handoffCodePayloadBytes := by
      have : handoffCodeSymbols = 58 := rfl
      have : handoffCodePayloadBytes = 36 := rfl
      omega
    have hbyte : UInt8.ofBitVec (((state.acc <<< 5 ||| BitVec.ofNat 32 v).sshiftRight (state.bits + 5 - 8) &&&
        0xff#32).setWidth 8) =
        UInt8.ofNat ((state.acc <<< 5 ||| BitVec.ofNat 32 v).toNat / 2 ^ (state.bits + 5 - 8)) := by
      rw [← UInt8.toNat_inj, UInt8.toNat_ofBitVec, BitVec.toNat_setWidth, BitVec.toNat_and, toNat_shift hfits.2,
        UInt8.toNat_ofNat']
      exact congrArg (· % 2 ^ 8) ((Nat.and_two_pow_sub_one_eq_mod _ 8).trans (Nat.mod_eq_of_lt hlt))
    refine ⟨_, rfl, by dsimp only; omega,
      out ++ [(state.acc <<< 5 ||| BitVec.ofNat 32 v).toNat / 2 ^ (state.bits + 5 - 8)], ?_, ?_, ?_⟩
    · dsimp only
      rw [toNat_mask (by omega)]
      exact hemit
    · dsimp only
      rw [hoffset, List.length_append, List.length_singleton]
    · dsimp only
      obtain ⟨room, hroom⟩ : ∃ room, handoffCodePayloadBytes - out.length = room + 1 :=
        ⟨handoffCodePayloadBytes - out.length - 1, by omega⟩
      rw [hpayload, hoffset, hroom, List.replicate_succ, List.set_append_right _ _ (by simp), List.length_map, Nat.sub_self,
        List.set_cons_zero, hbyte, List.map_append, List.length_append, List.length_singleton, List.append_assoc]
      congr 2
      rw [show handoffCodePayloadBytes - (out.length + 1) = room by omega]
      rfl
  · exact ⟨_, rfl, by dsimp only; omega, out, hpush, hoffset, hpayload⟩

theorem Decoding.run {digits : List Nat} (hlt : ∀ d ∈ digits, d < 32) (hlength : digits.length ≤ handoffCodeSymbols) :
    ∃ state, (digits.map fun d => [letter d]).foldlM decodeSymbol decodeStart = some state ∧ Decoding digits state := by
  induction digits using List.reverseRecOn with
  | nil => exact ⟨decodeStart, rfl, decodeStart_decoding⟩
  | append_singleton digits d ih =>
    rw [List.length_append, List.length_singleton] at hlength
    obtain ⟨state, hrun, hstate⟩ := ih (fun x hx => hlt x (List.mem_append_left _ hx)) (by omega)
    obtain ⟨state', hstep, hstate'⟩ := hstate.symbol (hlt d (by simp)) (by omega)
    refine ⟨state', ?_, hstate'⟩
    rw [List.map_append, List.foldlM_append, hrun, List.map_singleton, Option.bind_eq_bind, Option.bind_some,
      List.foldlM_cons, hstep]
    rfl

theorem symbols_of_run {s : JsString} {cs : List JsString} {state state' : DecodeState} (hcs : cs ⊆ characters s)
    (h : cs.foldlM decodeSymbol state = some state') :
    ∃ digits : List Nat, cs = digits.map (fun d => [letter d]) ∧ ∀ d ∈ digits, d < 32 := by
  induction cs generalizing state with
  | nil => exact ⟨[], rfl, by simp⟩
  | cons t rest ih =>
    rw [List.foldlM_cons, Option.bind_eq_bind, Option.bind_eq_some_iff] at h
    obtain ⟨next, hstep, hrest⟩ := h
    obtain ⟨digits, rfl, hlt⟩ := ih (fun c hc => hcs (List.mem_cons_of_mem _ hc)) hrest
    unfold decodeSymbol at hstep
    obtain ⟨v, hv, -⟩ := Option.bind_eq_some_iff.mp hstep
    obtain ⟨hsmall, rfl⟩ := symbol_of_indexOf (hcs List.mem_cons_self) hv
    refine ⟨v :: digits, rfl, fun d hd => ?_⟩
    rcases List.mem_cons.mp hd with rfl | hd
    · exact hsmall
    · exact hlt d hd

theorem flatten_letters (digits : List Nat) : (digits.map fun d => [letter d]).flatten = digits.map letter := by
  induction digits with
  | nil => rfl
  | cons d rest ih => rw [List.map_cons, List.flatten_cons, ih]; rfl

/-! ## Hyphens -/

theorem filter_intercalate {p : UInt16 → Bool} {c : UInt16} (hc : p c = false) (groups : List JsString) :
    (List.intercalate [c] groups).filter p = groups.flatten.filter p := by
  induction groups with
  | nil => rfl
  | cons group rest ih =>
    cases rest with
    | nil => rw [List.intercalate_singleton, List.flatten_singleton]
    | cons next rest =>
      have hflatten : (group :: next :: rest).flatten = group ++ (next :: rest).flatten := rfl
      rw [List.intercalate_cons_cons, List.filter_append, List.filter_append, ih, List.filter_singleton, hc, hflatten,
        List.filter_append, Bool.cond_false, List.append_nil]

theorem flatten_groups (symbols : JsString) (n : Nat) :
    ((List.range n).map fun i => (symbols.drop (handoffCodeGroup * i)).take handoffCodeGroup).flatten =
      symbols.take (handoffCodeGroup * n) := by
  induction n with
  | zero => simp
  | succ n ih =>
    rw [List.range_succ, List.map_append, List.flatten_append, ih, List.map_singleton, List.flatten_singleton, Nat.mul_succ,
      List.take_add]

theorem stripped_hyphenated (digits : List Nat) (hlt : ∀ d ∈ digits, d < 32) :
    stripped (hyphenated (digits.map letter)) = digits.map letter := by
  unfold stripped hyphenated
  rw [filter_intercalate (by decide), flatten_groups, List.take_of_length_le, List.filter_eq_self]
  · intro u hu
    obtain ⟨d, hd, rfl⟩ := List.mem_map.mp hu
    obtain ⟨-, hspace, hhyphen, -⟩ := letter_plain d (hlt d hd)
    simp [hspace, hhyphen]
  · unfold handoffCodeGroup
    omega

theorem toUpperCase_letters (upper : UpperCase) {digits : List Nat} (hlt : ∀ d ∈ digits, d < 32) :
    upper.toUpperCase (digits.map letter) = digits.map letter := by
  rw [upper.ascii]
  · rw [List.map_map]
    refine List.map_congr_left fun d hd => ?_
    exact if_neg (letter_plain d (hlt d hd)).2.2.2
  · intro u hu
    obtain ⟨d, hd, rfl⟩ := List.mem_map.mp hu
    exact (letter_plain d (hlt d hd)).1

/-! ## The codec -/

theorem checksumDiff_eq_zero {expected actual : Bytes} :
    checksumDiff expected actual = 0 ↔ ∀ i < handoffCodeChecksumBytes, expected.getD i 0 = actual.getD i 0 := by
  have hrange : List.range handoffCodeChecksumBytes = [0, 1, 2, 3] := rfl
  unfold checksumDiff
  rw [hrange]
  simp only [List.foldl_cons, List.foldl_nil, UInt8.or_eq_zero_iff, UInt8.xor_eq_zero_iff, true_and]
  constructor
  · rintro ⟨⟨⟨h0, h1⟩, h2⟩, h3⟩ i hi
    have hcases : i = 0 ∨ i = 1 ∨ i = 2 ∨ i = 3 := by
      unfold handoffCodeChecksumBytes at hi
      omega
    rcases hcases with rfl | rfl | rfl | rfl <;> assumption
  · intro h
    exact ⟨⟨⟨h 0 (by decide), h 1 (by decide)⟩, h 2 (by decide)⟩, h 3 (by decide)⟩

theorem length_handoffPayload (crypto : Crypto) {key : Bytes} (hkey : key.length = x25519PublicKeyBytes) :
    (handoffPayload crypto key).length = handoffCodePayloadBytes := by
  unfold handoffPayload handoffCodePayloadBytes
  simp only [List.length_append, List.length_take, List.length_replicate, hkey]
  omega

theorem checksumDiff_payload (crypto : Crypto) {payload : Bytes} (hlength : payload.length = handoffCodePayloadBytes) :
    checksumDiff ((crypto.sha256 (payload.take x25519PublicKeyBytes)).take handoffCodeChecksumBytes)
      (payload.drop x25519PublicKeyBytes) = 0 ↔ payload = handoffPayload crypto (payload.take x25519PublicKeyBytes) := by
  have hkey : (payload.take x25519PublicKeyBytes).length = x25519PublicKeyBytes := by
    rw [List.length_take, hlength]
    rfl
  have hsplit := List.take_append_drop x25519PublicKeyBytes payload
  generalize payload.take x25519PublicKeyBytes = key at hkey hsplit ⊢
  generalize hactual : payload.drop x25519PublicKeyBytes = actual at hsplit ⊢
  have hsize : actual.length = handoffCodeChecksumBytes := by
    rw [← hactual, List.length_drop, hlength]
    rfl
  have hshort : ((crypto.sha256 key).take handoffCodeChecksumBytes).length ≤ handoffCodeChecksumBytes := by
    rw [List.length_take]
    exact Nat.min_le_left _ _
  generalize hchecksum : (crypto.sha256 key).take handoffCodeChecksumBytes = checksum at hshort ⊢
  have hpadded : ∀ i, (checksum ++ List.replicate (handoffCodeChecksumBytes - checksum.length) 0).getD i 0 =
      checksum.getD i 0 := by
    intro i
    rcases Nat.lt_or_ge i checksum.length with hi | hi
    · rw [List.getD_append _ _ _ _ hi]
    · rw [List.getD_append_right _ _ _ _ hi, List.getD_eq_default _ _ hi]
      rcases Nat.lt_or_ge (i - checksum.length) (handoffCodeChecksumBytes - checksum.length) with hj | hj
      · rw [List.getD_replicate _ hj]
      · rw [List.getD_eq_default _ _ (by rw [List.length_replicate]; exact hj)]
  rw [checksumDiff_eq_zero, ← hsplit, handoffPayload, hchecksum, List.append_assoc, List.append_right_inj]
  constructor
  · intro h
    refine List.ext_getElem (by simp [hsize]; omega) fun i hi hi' => ?_
    have heq := (h i (hsize ▸ hi)).symm.trans (hpadded i).symm
    rwa [List.getD_eq_getElem _ _ hi, List.getD_eq_getElem _ _ hi'] at heq
  · intro h i _
    rw [h, hpadded]

theorem Decoding.finish {digits : List Nat} {state : DecodeState} (h : Decoding digits state)
    (hlength : digits.length = handoffCodeSymbols) : ∃ out, out.length = handoffCodePayloadBytes ∧ (∀ d ∈ out, d < 256) ∧
      state.offset = handoffCodePayloadBytes ∧ state.payload = out.map UInt8.ofNat ∧ state.acc.toNat < 4 ∧
      value 8 out * 4 + state.acc.toNat = value 5 digits := by
  obtain ⟨hbits, out, hregrouped, hoffset, hpayload⟩ := h
  have hsize := hregrouped.size_eq
  have hsymbols : handoffCodeSymbols = 58 := rfl
  have hbytes : handoffCodePayloadBytes = 36 := rfl
  have hout : out.length = handoffCodePayloadBytes := by omega
  have htwo : state.bits = 2 := by omega
  have hacc := hregrouped.acc_lt
  have hvalue := hregrouped.value_eq
  rw [htwo] at hacc hvalue
  refine ⟨out, hout, hregrouped.output_lt, hoffset.trans hout, ?_, hacc, hvalue⟩
  rw [hpayload, hout, Nat.sub_self, List.replicate_zero, List.append_nil]

theorem map_toNat_ofNat {out : List Nat} (h : ∀ d ∈ out, d < 256) : (out.map UInt8.ofNat).map UInt8.toNat = out := by
  rw [List.map_map]
  conv_rhs => rw [← List.map_id out]
  exact List.map_congr_left fun d hd => UInt8.toNat_ofNat_of_lt' (h d hd)

theorem decodeHandoffCode_ok_iff (crypto : Crypto) (upper : UpperCase) (text : JsString) (key : Bytes) :
    decodeHandoffCode crypto upper text = .ok key ↔ key.length = x25519PublicKeyBytes ∧
      upper.toUpperCase (stripped text) = base32Encode (handoffPayload crypto key) := by
  generalize hsymbols : upper.toUpperCase (stripped text) = symbols
  have hsize : ∀ payload : Bytes, payload.length = handoffCodePayloadBytes → ∃ digits, base32Encode payload = digits.map letter ∧
      (∀ d ∈ digits, d < 32) ∧ digits.length = handoffCodeSymbols ∧ value 5 digits = value 8 (payload.map UInt8.toNat) * 4 := by
    intro payload hpayload
    obtain ⟨digits, hencode, hlt, hlength, hvalue⟩ := base32Encode_digits payload
    rw [hpayload] at hlength hvalue
    rw [show 5 * digits.length - 8 * handoffCodePayloadBytes = 2 by rw [hlength]; rfl] at hvalue
    exact ⟨digits, hencode, hlt, hlength, hvalue⟩
  unfold decodeHandoffCode
  dsimp only
  rw [hsymbols]
  constructor
  · intro h
    split_ifs at h with hlength
    cases hrun : (characters symbols).foldlM decodeSymbol decodeStart with
    | none => rw [hrun] at h; cases h
    | some state =>
      rw [hrun] at h
      dsimp only at h
      split_ifs at h with hend hdiff
      cases h
      obtain ⟨digits, hcharacters, hlt⟩ := symbols_of_run (List.Subset.refl _) hrun
      have hletters : symbols = digits.map letter := by
        rw [← flatten_letters, ← hcharacters, flatten_characters]
      have hdigits : digits.length = handoffCodeSymbols := by
        rw [hletters, List.length_map, not_not] at hlength
        exact hlength
      obtain ⟨state', hrun', hdecoding⟩ := Decoding.run hlt hdigits.le
      rw [hcharacters, hrun'] at hrun
      cases hrun
      obtain ⟨out, hout, hbytes, -, hpayload, -, hvalue⟩ := hdecoding.finish hdigits
      simp only [Bool.or_eq_true, decide_eq_true_eq, not_or, not_not] at hend
      have hlengthPayload : state.payload.length = handoffCodePayloadBytes := by rw [hpayload, List.length_map, hout]
      have hpayloadKey := (checksumDiff_payload crypto hlengthPayload).mp (not_not.mp hdiff)
      refine ⟨by rw [List.length_take, hlengthPayload]; rfl, ?_⟩
      rw [← hpayloadKey]
      obtain ⟨digits', hencode, hlt', hdigits', hvalue'⟩ := hsize state.payload hlengthPayload
      rw [hpayload, map_toNat_ofNat hbytes] at hvalue'
      rw [hend.1] at hvalue
      have heq : digits = digits' := value_inj (hdigits.trans hdigits'.symm) hlt hlt' (hvalue.symm.trans hvalue'.symm)
      rw [hletters, hencode, heq]
  · rintro ⟨hkey, rfl⟩
    have hlengthPayload := length_handoffPayload crypto hkey
    obtain ⟨digits, hencode, hlt, hdigits, hvalue⟩ := hsize (handoffPayload crypto key) hlengthPayload
    have hascii : ∀ u ∈ digits.map letter, u.toNat < 0x80 := by
      intro u hu
      obtain ⟨d, hd, rfl⟩ := List.mem_map.mp hu
      exact (letter_plain d (hlt d hd)).1
    obtain ⟨state, hrun, hdecoding⟩ := Decoding.run hlt hdigits.le
    obtain ⟨out, hout, hbytes, hoffset, hpayload, hacc, hvalueOut⟩ := hdecoding.finish hdigits
    have hzero : state.acc = 0 := BitVec.eq_of_toNat_eq (show state.acc.toNat = 0 by omega)
    have hsame : out = (handoffPayload crypto key).map UInt8.toNat := by
      refine value_inj (w := 8) ?_ hbytes ?_ ?_
      · rw [hout, List.length_map, hlengthPayload]
      · intro d hd
        obtain ⟨b, -, rfl⟩ := List.mem_map.mp hd
        exact b.toNat_lt
      · omega
    have hwritten : state.payload = handoffPayload crypto key := by
      rw [hpayload, hsame, List.map_map]
      conv_rhs => rw [← List.map_id (handoffPayload crypto key)]
      exact List.map_congr_left fun b _ => UInt8.ofNat_toNat
    have htake : (handoffPayload crypto key).take x25519PublicKeyBytes = key := by
      unfold handoffPayload
      rw [List.append_assoc, ← hkey, List.take_left]
    rw [hencode, List.length_map, if_neg (not_not.mpr hdigits), characters_ascii _ hascii, List.map_map]
    have hrun' : (digits.map ((fun u => [u]) ∘ letter)).foldlM decodeSymbol decodeStart = some state := hrun
    rw [hrun']
    dsimp only
    rw [hzero, hoffset, if_neg (by simp), hwritten, htake, if_neg]
    rw [not_not]
    have hchecksum := (checksumDiff_payload crypto hlengthPayload).mpr (by rw [htake])
    rwa [htake] at hchecksum

/-- Keys and codes go with each other, and no accumulator outgrows its word. -/
theorem handoff_codes_canonical (crypto : Crypto) (upper : UpperCase) :
    (∀ key : Bytes, key.length = x25519PublicKeyBytes → ∃ code, encodeHandoffCode crypto key = .ok code ∧
      decodeHandoffCode crypto upper code = .ok key) ∧
    (∀ text key, decodeHandoffCode crypto upper text = .ok key → ∃ code, encodeHandoffCode crypto key = .ok code ∧
      upper.toUpperCase (stripped text) = stripped code) ∧
    (∀ (bytes : Bytes) (byte : UInt8), Fits (encodeBytes bytes).acc (byte.toBitVec.setWidth 32) 8 ∧
      Fits (encodeBytes bytes).acc 0 (5 - (encodeBytes bytes).bits)) ∧
    ∀ text pre state v, (upper.toUpperCase (stripped text)).length = handoffCodeSymbols →
      pre <+: characters (upper.toUpperCase (stripped text)) → pre.foldlM decodeSymbol decodeStart = some state → v < 32 →
      Fits state.acc (BitVec.ofNat 32 v) 5 := by
  have hencoded : ∀ key : Bytes, key.length = x25519PublicKeyBytes →
      encodeHandoffCode crypto key = .ok (hyphenated (base32Encode (handoffPayload crypto key))) := fun key hkey =>
    if_neg (not_not.mpr hkey)
  have hstripped : ∀ bytes, stripped (hyphenated (base32Encode bytes)) = base32Encode bytes ∧
      upper.toUpperCase (base32Encode bytes) = base32Encode bytes := by
    intro bytes
    obtain ⟨digits, hencode, hlt, -⟩ := base32Encode_digits bytes
    rw [hencode]
    exact ⟨stripped_hyphenated digits hlt, toUpperCase_letters upper hlt⟩
  refine ⟨fun key hkey => ⟨_, hencoded key hkey, ?_⟩, fun text key h => ?_, fun bytes byte => ?_,
    fun text pre state v hlength hpre hrun hv => ?_⟩
  · rw [decodeHandoffCode_ok_iff, (hstripped _).1, (hstripped _).2]
    exact ⟨hkey, rfl⟩
  · obtain ⟨hkey, hsymbols⟩ := (decodeHandoffCode_ok_iff crypto upper text key).mp h
    exact ⟨_, hencoded key hkey, by rw [hsymbols, (hstripped _).1]⟩
  · obtain ⟨digits, h, hbits⟩ := encodeBytes_encoding bytes
    refine ⟨fits_of_lt h.regrouped.acc_lt ?_ (by omega), fits_of_lt h.regrouped.acc_lt ?_ (by omega)⟩
    · rw [BitVec.toNat_setWidth]
      exact lt_of_le_of_lt (Nat.mod_le _ _) byte.toNat_lt
    · exact Nat.two_pow_pos _
  · obtain ⟨digits, rfl, hlt⟩ := symbols_of_run hpre.subset hrun
    have hshort : digits.length ≤ handoffCodeSymbols := by
      obtain ⟨rest, hrest⟩ := hpre
      have hflat := congrArg List.flatten hrest
      rw [List.flatten_append, flatten_letters, flatten_characters] at hflat
      rw [← hlength, ← hflat, List.length_append, List.length_map]
      exact Nat.le_add_right _ _
    obtain ⟨state', hrun', hbits, out, hregrouped, -⟩ := Decoding.run hlt hshort
    rw [hrun] at hrun'
    cases hrun'
    refine fits_of_lt hregrouped.acc_lt ?_ (by omega)
    rw [BitVec.toNat_ofNat]
    exact lt_of_le_of_lt (Nat.mod_le _ _) hv

/-- `toUpperCase` on ASCII, and nothing else. -/
def asciiUpperCase : UpperCase := ⟨fun s => s.map fun u => if 97 ≤ u ∧ u ≤ 122 then u - 32 else u, fun _ _ => rfl⟩

theorem handoff_codes_canonical_example : ∃ code, encodeHandoffCode exampleCrypto (List.replicate 32 7) = .ok code ∧
    decodeHandoffCode exampleCrypto asciiUpperCase code = .ok (List.replicate 32 7) :=
  (handoff_codes_canonical exampleCrypto asciiUpperCase).1 (List.replicate 32 7) rfl

end Maruhi.MasterWrap
