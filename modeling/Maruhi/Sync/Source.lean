import Maruhi.Sync.Plan

/-!
# The source environment (`programs-variable.ts`)

The accepted operations on variables, and what a pull reads of them.
-/

open Text

namespace Maruhi.Sync

/-- `MAX_VERSIONS_PER_VARIABLE` -/
def maxVersions : Nat := 1000

/-- A row of `variables` with its versions, version 1 first. -/
structure Variable where
  name : JsString
  required : Bool
  values : List Bytes
  deleted : Bool
  deriving DecidableEq, Repr

namespace Variable

def version (row : Variable) : Nat := row.values.length

def isActive (row : Variable) : Bool := !row.deleted && 0 < row.version

def isDeclared (row : Variable) : Bool := !row.deleted && row.version = 0

/-- The value at a version. -/
def valueAt (row : Variable) (version : Nat) : Bytes := (row.values[version - 1]?).getD []

end Variable

/-- The rows by variable id. -/
abbrev Source := OrderedMap JsString Variable

namespace Source

def variableNameTaken (source : Source) (name : JsString) (excludeVariableId : Option JsString) : Bool :=
  source.entries.any fun e => e.2.name = name && !e.2.deleted && some e.1 ≠ excludeVariableId

/-- What a pull of the environment shows of its active variables. -/
def sourceVariables (source : Source) : List SourceVariable :=
  source.values.filterMap fun row =>
    if row.isActive then some ⟨row.name, row.version, (row.valueAt row.version).length, row.required⟩ else none

def declaredVariables (source : Source) : List DeclaredVariable :=
  source.values.filterMap fun row => if row.isDeclared then some ⟨row.name, row.required⟩ else none

/-- `pullVariables`: the values of the names selected. -/
def pullVariables (source : Source) (select : JsString → Bool) : List DecryptedVariable :=
  source.entries.filterMap fun e =>
    if e.2.isActive && select e.2.name then some ⟨e.2.name, e.1, e.2.version, e.2.valueAt e.2.version⟩ else none

end Source

/-! ## Operations -/

/-- `rename` is also the schema reissue, under the same name. -/
inductive SourceOp
  | create (variableId name : JsString) (required : Bool) (value : Option Bytes)
  | push (variableId : JsString) (value : Bytes)
  | activate (variableId : JsString) (value : Bytes)
  | rename (variableId name : JsString) (required : Bool)
  | delete (variableId : JsString)
  deriving DecidableEq, Repr

namespace Source

def createVariable (source : Source) (variableId name : JsString) (required : Bool) (value : Option Bytes) :
    Option Source :=
  if source.has variableId || source.variableNameTaken name none then none
  else some (source.set variableId ⟨name, required, value.toList, false⟩)

def pushVersion (source : Source) (variableId : JsString) (value : Bytes) : Option Source :=
  match source.get? variableId with
  | none => none
  | some row =>
    if row.deleted || row.isDeclared || maxVersions < row.version + 1 then none
    else some (source.set variableId { row with values := row.values ++ [value] })

def activateVariable (source : Source) (variableId : JsString) (value : Bytes) : Option Source :=
  match source.get? variableId with
  | none => none
  | some row =>
    if row.deleted || !row.isDeclared then none
    else some (source.set variableId { row with values := [value] })

def renameVariable (source : Source) (variableId name : JsString) (required : Bool) : Option Source :=
  match source.get? variableId with
  | none => none
  | some row =>
    if row.deleted || source.variableNameTaken name (some variableId) then none
    else some (source.set variableId { row with name := name, required := required })

/-- The row stays, its versions do not. -/
def deleteVariable (source : Source) (variableId : JsString) : Option Source :=
  match source.get? variableId with
  | none => none
  | some row => if row.deleted then none else some (source.set variableId { row with values := [], deleted := true })

def accept (source : Source) : SourceOp → Option Source
  | .create variableId name required value => source.createVariable variableId name required value
  | .push variableId value => source.pushVersion variableId value
  | .activate variableId value => source.activateVariable variableId value
  | .rename variableId name required => source.renameVariable variableId name required
  | .delete variableId => source.deleteVariable variableId

/-- A refused operation leaves the source as it is. -/
def operate (source : Source) (op : SourceOp) : Source := (source.accept op).getD source

end Source

end Maruhi.Sync
