import Maruhi.Lib.OrderedMap
import Maruhi.Lib.Text
import Maruhi.Lib.Trim

/-!
# The parser of `.env` files (`env-file.ts`)

The parser reads units of any type that have a character code each: characters, or characters that carry a mark.
-/

namespace Maruhi.EnvFile
open Text

/-! ## Characters -/

/-- What `.` does not match. -/
def isLineTerminator (c : UInt16) : Bool := c = 10 || c = 13 || c = 0x2028 || c = 0x2029

def isQuote (c : UInt16) : Bool := c = 34 || c = 39

def isNameStart (c : UInt16) : Bool := (65 ≤ c && c ≤ 90) || (97 ≤ c && c ≤ 122) || c = 95

/-- `ENV_NAME_PATTERN`. -/
def isEnvName : JsString → Bool
  | [] => false
  | c :: rest => isNameStart c && rest.all fun d => isNameStart d || (48 ≤ d && d ≤ 57)

def maxNameLength : Nat := 256

/-- `split(/\r?\n/)`. -/
def splitLines : JsString → List JsString
  | [] => [[]]
  | c :: rest =>
    if c = 10 then [] :: splitLines rest
    else if c = 13 ∧ rest.head? = some 10 then splitLines rest
    else
      match splitLines rest with
      | [] => [[c]]
      | line :: lines => (c :: line) :: lines

attribute [grind =] splitLines

/-! ## A line -/

inductive EnvFileSkipReason
  | notAnAssignment
  | invalidName
  | duplicateName
  deriving DecidableEq, Repr

structure EnvFileSkippedLine where
  line : Nat
  reason : EnvFileSkipReason
  name : Option JsString
  deriving DecidableEq, Repr

structure EnvFileEntry (α : Type) where
  name : JsString
  line : Nat
  value : List α
  valueFaithful : Bool
  descriptionCandidate : List α
  deriving DecidableEq, Repr

structure ParsedValue (α : Type) where
  text : List α
  faithful : Bool
  deriving DecidableEq, Repr

/-- What one line says. -/
inductive EnvLine (α : Type)
  | blank
  | comment (text : List α)
  | skipped (reason : EnvFileSkipReason)
  | assignment (name : JsString) (raw : List α)
  deriving DecidableEq, Repr

section Units
variable {α : Type} (code : α → UInt16)

def trim (text : List α) : List α := text.trimBy fun u => isWhitespace (code u)

/-- Whether `\s+#.*$` matches at the head. -/
def startsComment : List α → Bool
  | [] => false
  | u :: rest =>
    isWhitespace (code u) &&
      match rest.dropWhile fun v => isWhitespace (code v) with
      | [] => false
      | v :: tail => code v = 35 && tail.all fun w => !isLineTerminator (code w)

/-- `replace(/\s+#.*$/, "")`. -/
def stripComment : List α → List α
  | [] => []
  | u :: rest => if startsComment code (u :: rest) then [] else u :: stripComment rest

attribute [grind =] stripComment

def parseValue : List α → ParsedValue α
  | [] => ⟨trim code (stripComment code []), true⟩
  | first :: rest =>
    if isQuote (code first) then
      if (first :: rest).length ≥ 2 ∧ (first :: rest).getLast?.map code = some (code first) then
        ⟨rest.dropLast, !(rest.dropLast.map code).contains 92 && !(rest.dropLast.map code).contains (code first)⟩
      else ⟨first :: rest, false⟩
    else ⟨trim code (stripComment code (first :: rest)), true⟩

/-- `replace(/^#+\s?/, "")`. -/
def stripHashes (line : List α) : List α :=
  match line.dropWhile fun u => code u = 35 with
  | [] => []
  | u :: rest => if isWhitespace (code u) then rest else u :: rest

/-- The line without `export `. -/
def assignmentOf (line : List α) : List α :=
  if (lit "export ").isPrefixOf (line.map code) then trim code (line.drop (lit "export ").length) else line

/-- What the name is read from. -/
def nameSource (rawLine : List α) : List α :=
  trim code ((assignmentOf code (trim code rawLine)).takeWhile fun u => code u ≠ 61)

def readLine (nfc : JsString → JsString) (rawLine : List α) : EnvLine α :=
  let line := trim code rawLine
  if line.isEmpty then .blank
  else if line.head?.map code = some 35 then .comment (stripHashes code line)
  else
    match (assignmentOf code line).dropWhile fun u => code u ≠ 61 with
    | [] => .skipped .notAnAssignment
    | _ :: rest =>
      let name := nfc ((nameSource code rawLine).map code)
      if !isEnvName name || name.length > maxNameLength then .skipped .invalidName
      else .assignment name (trim code rest)

/-! ## The file -/

structure ParseState (α : Type) where
  entries : List (EnvFileEntry α)
  skipped : List EnvFileSkippedLine
  seen : OrderedMap JsString Unit
  comments : List (List α)

def ParseState.initial : ParseState α := ⟨[], [], .empty, []⟩

/-- The entry of a new name. -/
def entryOf (space : α) (comments : List (List α)) (lineNumber : Nat) (name : JsString) (raw : List α) : EnvFileEntry α where
  name
  line := lineNumber
  value := (parseValue code raw).text
  valueFaithful := (parseValue code raw).faithful
  descriptionCandidate := trim code (List.intercalate [space] comments)

def parseLine (nfc : JsString → JsString) (space : α) (state : ParseState α) (lineNumber : Nat) (rawLine : List α) :
    ParseState α :=
  match readLine code nfc rawLine with
  | .blank => { state with comments := [] }
  | .comment text => { state with comments := state.comments ++ [text] }
  | .skipped reason => { state with skipped := state.skipped ++ [⟨lineNumber, reason, none⟩], comments := [] }
  | .assignment name raw =>
    if state.seen.has name then
      { state with skipped := state.skipped ++ [⟨lineNumber, .duplicateName, some name⟩], comments := [] }
    else
      { state with
        seen := state.seen.set name ()
        entries := state.entries ++ [entryOf code space state.comments lineNumber name raw]
        comments := [] }

attribute [grind =] parseLine

def parseLines (nfc : JsString → JsString) (space : α) (lines : List (List α)) : ParseState α :=
  (lines.zipIdx 1).foldl (fun state line => parseLine code nfc space state line.2 line.1) .initial

end Units

structure ParsedEnvFile where
  entries : List (EnvFileEntry UInt16)
  skipped : List EnvFileSkippedLine
  deriving DecidableEq, Repr

def parseEnvFile (nfc : JsString → JsString) (content : JsString) : ParsedEnvFile :=
  let state := parseLines id nfc 32 (splitLines content)
  ⟨state.entries, state.skipped⟩

example : parseEnvFile id (lit "# port\nexport PORT=8080 # listen\nPORT=1\nx") =
    ⟨[⟨lit "PORT", 2, lit "8080", true, lit "port"⟩],
      [⟨3, .duplicateName, some (lit "PORT")⟩, ⟨4, .notAnAssignment, none⟩]⟩ := by decide +kernel

end Maruhi.EnvFile
