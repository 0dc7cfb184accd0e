import Maruhi.Snapshot.Tables

/-!
# The lines of a snapshot (`do-snapshot.ts`)

One JSON text for the header, for each table, for each row and for the trailer.
-/

open Text Utf8 JsonText

namespace Maruhi.Snapshot

/-- The language's numbers, with the natural ones among them. -/
structure Numbers (N : Type) extends Numerals N where
  ofNat : Nat → N

variable {N : Type}

structure SnapshotHeader (N : Type) where
  schemaVersion : N
  takenAtMs : N
  doIdHex : JsString

structure SnapshotTrailer (N : Type) where
  rows : OrderedMap JsString N
  chainHeadSeq : N
  chainHeadHashHex : Option JsString
  auditMaxSeq : N
  auditHeadHashHex : Option JsString
  databaseSizeBytes : N

inductive SnapshotLine (N : Type)
  | header (header : SnapshotHeader N)
  | table (table : JsString) (columns : List JsString)
  | row (table : JsString) (values : List (Scalar N))
  | trailer (trailer : SnapshotTrailer N)

/-- `SNAPSHOT_FORMAT` -/
def snapshotFormat : JsString := lit "maruhi-do-snapshot"

/-- `SNAPSHOT_FORMAT_VERSION` -/
def snapshotFormatVersion : Nat := 1

/-! ## As JSON -/

def encodeScalar : Scalar N → Value N
  | .null => .null
  | .num n => .num n
  | .str s => .str s
  | .blob bytes => .obj (.cons (lit "b64") (.str (Base64.btoa bytes)) .nil)

def nullable : Option JsString → Value N
  | none => .null
  | some s => .str s

def texts (l : List JsString) : Value N := .arr (Items.ofList (l.map .str))

def record (m : OrderedMap JsString N) : Value N := .obj (Members.ofList (m.entries.map fun e => (e.1, .num e.2)))

def lineJson (numbers : Numbers N) : SnapshotLine N → Value N
  | .header header => .obj (Members.ofList [(lit "kind", .str (lit "header")), (lit "format", .str snapshotFormat),
      (lit "version", .num (numbers.ofNat snapshotFormatVersion)), (lit "schemaVersion", .num header.schemaVersion),
      (lit "takenAtMs", .num header.takenAtMs), (lit "doIdHex", .str header.doIdHex)])
  | .table table columns => .obj (Members.ofList [(lit "kind", .str (lit "table")), (lit "table", .str table),
      (lit "columns", texts columns)])
  | .row table values => .obj (Members.ofList [(lit "kind", .str (lit "row")), (lit "table", .str table),
      (lit "values", .arr (Items.ofList (values.map encodeScalar)))])
  | .trailer trailer => .obj (Members.ofList [(lit "kind", .str (lit "trailer")), (lit "rows", record trailer.rows),
      (lit "chainHeadSeq", .num trailer.chainHeadSeq), (lit "chainHeadHashHex", nullable trailer.chainHeadHashHex),
      (lit "auditMaxSeq", .num trailer.auditMaxSeq), (lit "auditHeadHashHex", nullable trailer.auditHeadHashHex),
      (lit "databaseSizeBytes", .num trailer.databaseSizeBytes)])

def lineText (numbers : Numbers N) (line : SnapshotLine N) : JsString :=
  stringify numbers.toNumerals (lineJson numbers line)

/-! ## Order and marks -/

/-- The chain comes last. -/
def snapshotTableOrder (tables : List TableName) : List TableName :=
  tables.filter (fun t => t ≠ .chainEntries) ++ [.chainEntries]

/-- `String(value)` of a column. -/
def stringOf (numbers : Numbers N) : Option (Scalar N) → JsString
  | none => lit "undefined"
  | some .null => lit "null"
  | some (.num n) => numbers.text n
  | some (.str s) => s
  | some (.blob _) => lit "[object ArrayBuffer]"

structure DoWatermarks where
  chainHeadSeq : Nat
  chainHeadHashHex : Option JsString
  auditMaxSeq : Nat
  auditHeadHashHex : Option JsString
  mutationSeq : Nat

/-- A column of the last row. -/
def lastText (numbers : Numbers N) (table : Table N) (name : String) : Option JsString :=
  table.rows.getLast?.map fun row => stringOf numbers (table.column row (lit name))

def readWatermarks (numbers : Numbers N) (db : ProjectDb N) : DoWatermarks :=
  let auditMaxSeq := (db.tables .auditEvents).maxRowid
  let headColumnSeq := (db.tables .auditHeadHashes).maxRowid
  { chainHeadSeq := (db.tables .chainEntries).maxRowid
    chainHeadHashHex := lastText numbers (db.tables .chainEntries) "entry_hash_hex"
    auditMaxSeq := auditMaxSeq
    auditHeadHashHex :=
      if auditMaxSeq = 0 then some []
      else if headColumnSeq = auditMaxSeq then lastText numbers (db.tables .auditHeadHashes) "head_hash_hex"
      else none
    mutationSeq := db.mutationSeq }

end Maruhi.Snapshot
