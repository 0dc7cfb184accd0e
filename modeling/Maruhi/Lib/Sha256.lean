import Maruhi.Lib.Text
import Mathlib.Algebra.Group.Nat.Defs

/-!
# SHA-256

The hash of WebCrypto on concrete inputs. Nothing general is proved of it: results take the
hash as a parameter, and it instantiates that parameter where they are applied to an example.
-/

namespace Sha256

def roundConstants : List Nat :=
  [0x428a2f98, 0x71374491, 0xb5c0fbcf, 0xe9b5dba5, 0x3956c25b, 0x59f111f1, 0x923f82a4, 0xab1c5ed5,
   0xd807aa98, 0x12835b01, 0x243185be, 0x550c7dc3, 0x72be5d74, 0x80deb1fe, 0x9bdc06a7, 0xc19bf174,
   0xe49b69c1, 0xefbe4786, 0x0fc19dc6, 0x240ca1cc, 0x2de92c6f, 0x4a7484aa, 0x5cb0a9dc, 0x76f988da,
   0x983e5152, 0xa831c66d, 0xb00327c8, 0xbf597fc7, 0xc6e00bf3, 0xd5a79147, 0x06ca6351, 0x14292967,
   0x27b70a85, 0x2e1b2138, 0x4d2c6dfc, 0x53380d13, 0x650a7354, 0x766a0abb, 0x81c2c92e, 0x92722c85,
   0xa2bfe8a1, 0xa81a664b, 0xc24b8b70, 0xc76c51a3, 0xd192e819, 0xd6990624, 0xf40e3585, 0x106aa070,
   0x19a4c116, 0x1e376c08, 0x2748774c, 0x34b0bcb5, 0x391c0cb3, 0x4ed8aa4a, 0x5b9cca4f, 0x682e6ff3,
   0x748f82ee, 0x78a5636f, 0x84c87814, 0x8cc70208, 0x90befffa, 0xa4506ceb, 0xbef9a3f7, 0xc67178f2]

structure Words where
  (a b c d e f g h : Nat)

def initial : Words :=
  ⟨0x6a09e667, 0xbb67ae85, 0x3c6ef372, 0xa54ff53a, 0x510e527f, 0x9b05688c, 0x1f83d9ab, 0x5be0cd19⟩

/-- Words are below 2^32. -/
def modulus : Nat := 2 ^ 32

def rotr (n x : Nat) : Nat := (x >>> n) ||| ((x <<< (32 - n)) % modulus)

/-- The message schedule, newest word first, extended by `n` words. -/
def schedule : Nat → List Nat → List Nat
  | 0, w => w
  | n + 1, w =>
    let x := w.getD 14 0
    let y := w.getD 1 0
    let s0 := rotr 7 x ^^^ rotr 18 x ^^^ (x >>> 3)
    let s1 := rotr 17 y ^^^ rotr 19 y ^^^ (y >>> 10)
    schedule n ((w.getD 15 0 + s0 + w.getD 6 0 + s1) % modulus :: w)

attribute [grind =] schedule

def round (s : Words) (k w : Nat) : Words :=
  let s1 := rotr 6 s.e ^^^ rotr 11 s.e ^^^ rotr 25 s.e
  let ch := (s.e &&& s.f) ^^^ ((modulus - 1 - s.e) &&& s.g)
  let t1 := s.h + s1 + ch + k + w
  let s0 := rotr 2 s.a ^^^ rotr 13 s.a ^^^ rotr 22 s.a
  let maj := (s.a &&& s.b) ^^^ (s.a &&& s.c) ^^^ (s.b &&& s.c)
  ⟨(t1 + s0 + maj) % modulus, s.a, s.b, s.c, (s.d + t1) % modulus, s.e, s.f, s.g⟩

def compress (s : Words) (block : List Nat) : Words :=
  let words := (schedule 48 block.reverse).reverse
  let r := (roundConstants.zip words).foldl (fun s kw => round s kw.1 kw.2) s
  ⟨(s.a + r.a) % modulus, (s.b + r.b) % modulus, (s.c + r.c) % modulus, (s.d + r.d) % modulus,
    (s.e + r.e) % modulus, (s.f + r.f) % modulus, (s.g + r.g) % modulus, (s.h + r.h) % modulus⟩

def bigEndian (n : Nat) : Nat → Bytes
  | 0 => []
  | k + 1 => UInt8.ofNat (n / 256 ^ k) :: bigEndian n k

attribute [grind =] bigEndian

def pad (message : Bytes) : Bytes :=
  message ++ [0x80] ++ List.replicate ((119 - message.length % 64) % 64) 0 ++ bigEndian (8 * message.length) 8

def wordsOf : Bytes → List Nat
  | a :: b :: c :: d :: rest =>
    (((a.toNat * 256 + b.toNat) * 256 + c.toNat) * 256 + d.toNat) :: wordsOf rest
  | _ => []

attribute [grind =] wordsOf

def blocksOf : Nat → List Nat → List (List Nat)
  | 0, _ => []
  | n + 1, words => words.take 16 :: blocksOf n (words.drop 16)

attribute [grind =] blocksOf

def sha256 (message : Bytes) : Bytes :=
  let words := wordsOf (pad message)
  let s := (blocksOf (words.length / 16) words).foldl compress initial
  [s.a, s.b, s.c, s.d, s.e, s.f, s.g, s.h].flatMap fun w => bigEndian w 4

theorem length_bigEndian (n k : Nat) : (bigEndian n k).length = k := by
  induction k with
  | zero => rfl
  | succ k ih => rw [bigEndian, List.length_cons, ih]

theorem length_sha256 (message : Bytes) : (sha256 message).length = 32 := by
  simp [sha256, length_bigEndian]

/-! ## The same digest in fewer steps

On literals it reduces with a third of the unfolding; an example is evaluated through it. -/

def turnRight (n x : Nat) : Nat := Nat.lor (Nat.shiftRight x n) (Nat.mod (Nat.shiftLeft x (Nat.sub 32 n)) 4294967296)

def extend : Nat → List Nat → List Nat
  | 0, w => w
  | n + 1, w =>
    match w with
    | w0 :: w1 :: w2 :: w3 :: w4 :: w5 :: w6 :: w7 :: w8 :: w9 :: w10 :: w11 :: w12 :: w13 :: w14 :: w15 :: rest =>
      extend n (Nat.mod (Nat.add (Nat.add (Nat.add w15 (Nat.xor (Nat.xor (turnRight 7 w14) (turnRight 18 w14)) (Nat.shiftRight w14 3))) w6)
        (Nat.xor (Nat.xor (turnRight 17 w1) (turnRight 19 w1)) (Nat.shiftRight w1 10))) 4294967296 ::
          w0 :: w1 :: w2 :: w3 :: w4 :: w5 :: w6 :: w7 :: w8 :: w9 :: w10 :: w11 :: w12 :: w13 :: w14 :: w15 :: rest)
    | w => schedule (n + 1) w

attribute [grind =] extend

theorem schedule_eq (n : Nat) (w : List Nat) : schedule n w = extend n w := by
  induction n generalizing w with
  | zero => rfl
  | succ n ih =>
    unfold extend
    split
    · rw [← ih]
      rfl
    · rfl

def rounds : List Nat → List Nat → Words → Words
  | k :: ks, w :: ws, ⟨a, b, c, d, e, f, g, h⟩ =>
    rounds ks ws (
      let t1 := Nat.add (Nat.add (Nat.add (Nat.add h (Nat.xor (Nat.xor (turnRight 6 e) (turnRight 11 e)) (turnRight 25 e)))
        (Nat.xor (Nat.land e f) (Nat.land (Nat.sub 4294967295 e) g))) k) w
      ⟨Nat.mod (Nat.add (Nat.add t1 (Nat.xor (Nat.xor (turnRight 2 a) (turnRight 13 a)) (turnRight 22 a)))
          (Nat.xor (Nat.xor (Nat.land a b) (Nat.land a c)) (Nat.land b c))) 4294967296, a, b, c,
        Nat.mod (Nat.add d t1) 4294967296, e, f, g⟩)
  | _, _, s => s

attribute [grind =] rounds

theorem foldl_round (ks ws : List Nat) (s : Words) :
    (ks.zip ws).foldl (fun s kw => round s kw.1 kw.2) s = rounds ks ws s := by
  induction ks generalizing ws s with
  | nil => rfl
  | cons k ks ih =>
    cases ws with
    | nil => rfl
    | cons w ws =>
      rw [List.zip_cons_cons, List.foldl_cons, ih]
      rfl

def mix (s : Words) (block : List Nat) : Words :=
  let r := rounds roundConstants (extend 48 block.reverse).reverse s
  ⟨Nat.mod (Nat.add s.a r.a) 4294967296, Nat.mod (Nat.add s.b r.b) 4294967296, Nat.mod (Nat.add s.c r.c) 4294967296,
    Nat.mod (Nat.add s.d r.d) 4294967296, Nat.mod (Nat.add s.e r.e) 4294967296, Nat.mod (Nat.add s.f r.f) 4294967296,
    Nat.mod (Nat.add s.g r.g) 4294967296, Nat.mod (Nat.add s.h r.h) 4294967296⟩

theorem compress_eq : compress = mix := by
  funext s block
  unfold compress mix
  dsimp only
  rw [foldl_round, schedule_eq]
  rfl

def digest (message : Bytes) : Bytes :=
  let words := wordsOf (pad message)
  let s := (blocksOf (words.length / 16) words).foldl mix initial
  [s.a, s.b, s.c, s.d, s.e, s.f, s.g, s.h].flatMap fun w => bigEndian w 4

theorem sha256_eq : sha256 = digest := by
  funext message
  unfold sha256 digest
  rw [compress_eq]

/-! ## Digests that are known -/

/-- A message whose digest has been computed. -/
structure Known where
  message : Bytes
  hash : Bytes
  digest_eq : digest message = hash

/-- The digest, looked up where it is known. -/
def lookup (table : List Known) (message : Bytes) : Bytes :=
  match table.find? fun known => known.message = message with
  | some known => known.hash
  | none => digest message

theorem sha256_eq_lookup (table : List Known) : sha256 = lookup table := by
  rw [sha256_eq]
  funext message
  unfold lookup
  split
  · rename_i known hknown
    have hmessage : known.message = message := by simpa using List.find?_some hknown
    rw [← hmessage, known.digest_eq]
  · rfl

set_option maxRecDepth 20000 in
/-- The digest of `abc`. -/
example : Text.encodeHex (sha256 [97, 98, 99]) =
    Text.lit "ba7816bf8f01cfea414140de5dae2223b00361a396177a9cb410ff61f20015ad" := by decide +kernel

end Sha256
