import Maruhi.Lib.Scanner
import Mathlib.Data.List.Sort

/-!
# Replacing patterns in a byte stream

The functions of `byte-replace.ts`: the scan, the replacement of a whole buffer, and the replacer of a
chunked stream.
-/

namespace Maruhi.Bytes

abbrev Uint8Array := List UInt8

/-- `source` bytes become `target` bytes: the fields `from` and `to`. -/
structure BytePattern where
  source : Uint8Array
  target : Uint8Array
  deriving DecidableEq

/-- A pattern that a scan uses. -/
structure ScanPattern extends BytePattern where
  nonempty : 0 < source.length
  deriving DecidableEq

def subarray (input : Uint8Array) (start stop : Nat) : Uint8Array := (input.drop start).take (stop - start)

/-- Whether `needle` occurs in `haystack` starting exactly at `pos`. -/
def matchesAt (haystack needle : Uint8Array) (pos : Nat) : Bool :=
  if pos + needle.length > haystack.length then false
  else (List.range needle.length).all fun j => haystack[pos + j]? = needle[j]?

/-- The longest pattern (patterns sorted longest first) starting at `pos`. -/
def longestMatchAt (haystack : Uint8Array) (sorted : List ScanPattern) (pos : Nat) : Option ScanPattern :=
  sorted.find? fun pattern => matchesAt haystack pattern.source pos

def nonempty? (pattern : BytePattern) : Option ScanPattern :=
  if h : 0 < pattern.source.length then some ⟨pattern, h⟩ else none

def sortedPatterns (patterns : List BytePattern) : List ScanPattern :=
  (patterns.filterMap nonempty?).mergeSort fun a b => b.source.length ≤ a.source.length

/-- Whether some pattern longer than `minLength` could still match at `pos`, given more bytes. -/
def couldExtendAt (input : Uint8Array) (sorted : List ScanPattern) (pos minLength : Nat) : Bool :=
  sorted.any fun pattern =>
    !(pattern.source.length ≤ input.length - pos || pattern.source.length ≤ minLength) &&
      (List.range (input.length - pos)).all fun j => pattern.source[j]? = input[pos + j]?

def longestLength (sorted : List ScanPattern) : Nat := sorted.head?.elim 0 (·.source.length)

def matchLength (found : Option ScanPattern) : Nat := found.elim 0 (·.source.length)

/-- The loop of `scan`, with the parts pushed so far. -/
def scanLoop (input : Uint8Array) (sorted : List ScanPattern) (final : Bool) (i literalStart : Nat) (parts : List Uint8Array) :
    Uint8Array × Nat :=
  if i < input.length then
    if !final && input.length - i < longestLength sorted &&
        couldExtendAt input sorted i (matchLength (longestMatchAt input sorted i)) then
      ((parts ++ [subarray input literalStart i]).flatten, i)
    else
      match longestMatchAt input sorted i with
      | none => scanLoop input sorted final (i + 1) literalStart parts
      | some found =>
        scanLoop input sorted final (i + found.source.length) (i + found.source.length)
          (parts ++ [subarray input literalStart i, found.target])
  else ((parts ++ [subarray input literalStart i]).flatten, i)
termination_by input.length - i
decreasing_by
  · omega
  · have := found.nonempty
    omega

/-- The output, and where the scan stopped. -/
def scan (input : Uint8Array) (sorted : List ScanPattern) (final : Bool) : Uint8Array × Nat := scanLoop input sorted final 0 0 []

def replaceBytes (input : Uint8Array) (patterns : List BytePattern) : Uint8Array :=
  if (sortedPatterns patterns).length = 0 then input else (scan input (sortedPatterns patterns) true).1

/-! ## The stream replacer -/

/-- What a stream replacer keeps between its calls. -/
structure StreamReplacer where
  sorted : List ScanPattern
  pending : Uint8Array

def makeStreamReplacer (patterns : List BytePattern) : StreamReplacer := ⟨sortedPatterns patterns, []⟩

namespace StreamReplacer

def combined (replacer : StreamReplacer) (chunk : Uint8Array) : Uint8Array :=
  if replacer.pending.length = 0 then chunk else replacer.pending ++ chunk

def push (replacer : StreamReplacer) (chunk : Uint8Array) : Uint8Array × StreamReplacer :=
  if replacer.sorted.length = 0 then (chunk, replacer)
  else
    let scanned := scan (replacer.combined chunk) replacer.sorted false
    (scanned.1, { replacer with pending := (replacer.combined chunk).drop scanned.2 })

def flush (replacer : StreamReplacer) : Uint8Array × StreamReplacer :=
  if replacer.sorted.length = 0 then ([], replacer)
  else ((scan replacer.pending replacer.sorted true).1, { replacer with pending := [] })

/-- The outputs of the pushes, and the replacer after them. -/
def pushAll (replacer : StreamReplacer) (chunks : List Uint8Array) : Uint8Array × StreamReplacer :=
  chunks.foldl (fun state chunk => (state.1 ++ (state.2.push chunk).1, (state.2.push chunk).2)) ([], replacer)

/-- All the outputs: of the pushes, then of the flush. -/
def stream (replacer : StreamReplacer) (chunks : List Uint8Array) : Uint8Array :=
  (replacer.pushAll chunks).1 ++ (replacer.pushAll chunks).2.flush.1

end StreamReplacer

end Maruhi.Bytes
