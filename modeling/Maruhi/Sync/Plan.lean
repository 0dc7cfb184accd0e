import Maruhi.Lib.Utf8Decode
import Maruhi.Sync.Receipt

/-!
# The sync plan and its delivery (`sync-plan.ts`)

A plan compares the receipt with the current versions. What the driver delivered goes into the next receipt.
-/

open Text

namespace Maruhi.Sync

structure SourceVariable where
  name : JsString
  version : Nat
  byteLength : Nat
  required : Bool
  deriving DecidableEq, Repr

structure DeclaredVariable where
  name : JsString
  required : Bool
  deriving DecidableEq, Repr

/-- A pulled value. -/
structure DecryptedVariable where
  name : JsString
  variableId : JsString
  version : Nat
  value : Bytes
  deriving DecidableEq, Repr

inductive TrailingNewlineHandling
  | kept
  | strippedFromSingleLine
  | stripped
  deriving DecidableEq, Repr

/-- `nameRule` is the test of the name's regular expression. -/
structure ValueConstraints where
  maxBytes : Option Nat
  nonEmpty : Bool
  trailingNewline : TrailingNewlineHandling
  nameRule : Option (JsString → Bool)

structure ExecPreset where
  jsonObject : Bool
  batch : Nat
  batch_pos : 0 < batch
  deletesAsNull : Bool
  constraints : ValueConstraints

inductive HttpWriteStrategy
  | upsert (batch : Nat) (batch_pos : 0 < batch)
  | createOrUpdate

structure HttpPreset where
  write : HttpWriteStrategy
  deletesInWrite : Bool
  constraints : ValueConstraints

inductive TargetDriver
  | exec (spec : ExecPreset)
  | http (spec : HttpPreset)

def TargetDriver.constraints : TargetDriver → ValueConstraints
  | exec spec => spec.constraints
  | http spec => spec.constraints

inductive Selection
  | all
  | listed (names : List JsString)
  deriving DecidableEq, Repr

structure SyncTarget where
  name : JsString
  preset : PresetId
  driver : TargetDriver
  selection : Selection
  exclude : List JsString
  production : Bool

inductive BlockedReason
  | nameRule
  | emptyValue
  | tooLarge (byteLength maxBytes : Nat)
  deriving DecidableEq, Repr

inductive PlanEntry
  | add (name : JsString) (version : Nat)
  | update (name : JsString) (version previousVersion : Nat)
  | unchanged (name : JsString) (version : Nat)
  | delete (name : JsString) (previousVersion : Nat)
  | blocked (name : JsString) (version : Nat) (reason : BlockedReason)
  deriving DecidableEq, Repr

namespace PlanEntry

def name : PlanEntry → JsString
  | add name _ => name
  | update name _ _ => name
  | unchanged name _ => name
  | delete name _ => name
  | blocked name _ _ => name

def isBlocked : PlanEntry → Bool
  | blocked _ _ _ => true
  | _ => false

/-- The version an entry writes. -/
def writes? : PlanEntry → Option Nat
  | add _ version => some version
  | update _ version _ => some version
  | _ => none

def isDelete : PlanEntry → Bool
  | delete _ _ => true
  | _ => false

end PlanEntry

structure SyncPlan where
  entries : List PlanEntry
  declaredRequired : List DeclaredVariable
  requiredNotSelected : List JsString
  deriving DecidableEq, Repr

inductive ConstraintProblem
  | emptyValue
  | tooLarge
  | newlineStrippedFromSingleLine
  | newlineStripped
  | nameRule
  deriving DecidableEq, Repr

/-- Why nothing was sent. -/
inductive SyncError
  | receipt (reason : String)
  | otherPreset (preset : PresetId)
  | missing (names : List JsString)
  | declaredRequired (names : List JsString)
  | blocked (names : List JsString)
  | notPulled
  | notUtf8 (name : JsString)
  | constraint (name : JsString) (problem : ConstraintProblem)
  | needsYes
  | token
  deriving DecidableEq, Repr

/-! ## The plan -/

def sourceByName (source : List SourceVariable) : OrderedMap JsString SourceVariable :=
  .ofEntries (source.map fun entry => (entry.name, entry))

def declaredByName (declared : List DeclaredVariable) : OrderedMap JsString DeclaredVariable :=
  .ofEntries (declared.map fun entry => (entry.name, entry))

def selectNames (target : SyncTarget) (source : OrderedMap JsString SourceVariable)
    (declared : OrderedMap JsString DeclaredVariable) : Except SyncError (List JsString) :=
  match target.selection with
  | .all => .ok (sortedNames (source.keys.filter fun name => !target.exclude.contains name))
  | .listed names =>
    let missing := names.filter fun name => !source.has name && !declared.has name
    if 0 < missing.length then .error (.missing missing) else .ok (sortedNames names)

def classifyVariable (constraints : ValueConstraints) (entry : SourceVariable) (previousVersion : Option Nat) :
    PlanEntry :=
  if constraints.nameRule.any fun rule => !rule entry.name then .blocked entry.name entry.version .nameRule
  else if constraints.nonEmpty && entry.byteLength = 0 then .blocked entry.name entry.version .emptyValue
  else match constraints.maxBytes.filter fun maxBytes => maxBytes < entry.byteLength with
  | some maxBytes => .blocked entry.name entry.version (.tooLarge entry.byteLength maxBytes)
  | none =>
    match previousVersion with
    | none => .add entry.name entry.version
    | some previousVersion =>
      if previousVersion = entry.version then .unchanged entry.name entry.version
      else .update entry.name entry.version previousVersion

/-- The versions of the receipt, none of them before the first sync. -/
def previousVersions (receipt : Option SyncReceipt) : OrderedMap JsString Nat :=
  receipt.elim .empty SyncReceipt.versions

def computePlan (target : SyncTarget) (source : List SourceVariable) (declared : List DeclaredVariable)
    (receipt : Option SyncReceipt) : Except SyncError SyncPlan := do
  let sourceMap := sourceByName source
  let declaredMap := declaredByName declared
  let selected ← selectNames target sourceMap declaredMap
  let previous := previousVersions receipt
  let current := selected.filterMap fun name =>
    (sourceMap.get? name).map fun entry => classifyVariable target.driver.constraints entry (previous.get? name)
  let deleted := previous.entries.filterMap fun e =>
    if !selected.contains e.1 || !sourceMap.has e.1 then some (.delete e.1 e.2) else none
  pure {
    entries := (current ++ deleted).insertionSort fun a b => a.name ≤ b.name
    declaredRequired := selected.filterMap fun name => (declaredMap.get? name).filter (·.required)
    requiredNotSelected := sortedNames ((sourceMap.values.filter fun entry =>
      entry.required && !selected.contains entry.name).map (·.name)) }

def reviewPlan (plan : SyncPlan) : Except SyncError Unit :=
  let missing := (plan.declaredRequired.filter (·.required)).map (·.name)
  if 0 < missing.length then .error (.declaredRequired (sortedNames missing))
  else
    let blocked := plan.entries.filter PlanEntry.isBlocked
    if 0 < blocked.length then .error (.blocked (blocked.map PlanEntry.name)) else .ok ()

/-! ## The work -/

/-- The text of a value, none where the fatal decoder throws. -/
def decodeValueText (value : Bytes) : Option JsString := Utf8.textDecode value

def isNewline (byte : UInt8) : Bool := byte = 0x0A || byte = 0x0D

def endsWithNewline (value : Bytes) : Bool := value.getLast?.any isNewline

/-- The last byte is the only newline, or the last two are CRLF and the only one. -/
def endsWithSingleLineNewline (value : Bytes) : Bool :=
  match value.reverse with
  | 0x0A :: 0x0D :: rest => !rest.any isNewline
  | 0x0A :: rest => !rest.any isNewline
  | _ => false

def checkValueConstraints (constraints : ValueConstraints) (name : JsString) (plaintext : Bytes) :
    Option ConstraintProblem :=
  if constraints.nonEmpty && plaintext.length = 0 then some .emptyValue
  else if constraints.maxBytes.any fun maxBytes => maxBytes < plaintext.length then some .tooLarge
  else if constraints.trailingNewline = .strippedFromSingleLine && endsWithSingleLineNewline plaintext then
    some .newlineStrippedFromSingleLine
  else if constraints.trailingNewline = .stripped && endsWithNewline plaintext then some .newlineStripped
  else if constraints.nameRule.any fun rule => !rule name then some .nameRule
  else none

/-- A value to write. That it is text has been checked before anything is sent. -/
structure SyncWrite extends DecryptedVariable where
  text : JsString
  decodes : decodeValueText value = some text
  deriving DecidableEq, Repr

structure ApplyWork where
  writes : List SyncWrite
  deletes : List JsString
  versions : OrderedMap JsString Nat

def writesOf (pulled : List DecryptedVariable) : OrderedMap JsString DecryptedVariable :=
  .ofEntries (pulled.map fun write => (write.name, write))

/-- One turn of the loop over the plan's entries. -/
def prepareEntry (constraints : ValueConstraints) (pulled : OrderedMap JsString DecryptedVariable)
    (work : List SyncWrite × OrderedMap JsString Nat) (entry : PlanEntry) :
    Except SyncError (List SyncWrite × OrderedMap JsString Nat) :=
  match entry.writes? with
  | none => .ok work
  | some version =>
    match pulled.get? entry.name with
    | none => .error .notPulled
    | some write =>
      match decodes : decodeValueText write.value with
      | none => .error (.notUtf8 write.name)
      | some text =>
        match checkValueConstraints constraints write.name write.value with
        | some problem => .error (.constraint write.name problem)
        | none => .ok (work.1 ++ [⟨write, text, decodes⟩], work.2.set entry.name version)

def prepareWork (target : SyncTarget) (plan : SyncPlan) (pulled : OrderedMap JsString DecryptedVariable) :
    Except SyncError ApplyWork := do
  let (writes, versions) ← plan.entries.foldlM (prepareEntry target.driver.constraints pulled) ([], .empty)
  pure { writes, deletes := (plan.entries.filter PlanEntry.isDelete).map PlanEntry.name, versions }

/-! ## The driver -/

inductive RequestKind
  | write
  | delete
  deriving DecidableEq, Repr

/-- What a request carries of a variable at a version: the value's own bytes, or its text. -/
structure Delivery where
  variableId : JsString
  version : Nat
  asText : Bool
  content : Bytes
  deriving DecidableEq, Repr

/-- On stdin as it is. -/
def SyncWrite.bytesDelivery (write : SyncWrite) : Delivery := ⟨write.variableId, write.version, false, write.value⟩

/-- A string in a JSON body. -/
def SyncWrite.textDelivery (write : SyncWrite) : Delivery :=
  ⟨write.variableId, write.version, true, Utf8.utf8Encode write.text⟩

/-- A process to run, or a request to send: what it sets, and what it deletes. -/
structure Request where
  kind : RequestKind
  items : List (JsString × Option Delivery)

def Request.names (request : Request) : List JsString := request.items.map Prod.fst

/-- The first `fuel` slices of `size`. -/
def slices {α : Type} (size : Nat) : Nat → List α → List (List α)
  | 0, _ => []
  | fuel + 1, items => if items.isEmpty then [] else items.take size :: slices size fuel (items.drop size)

attribute [grind =] slices

def chunksOf {α : Type} (size : Nat) (items : List α) : List (List α) := slices size items.length items

/-- The entries of a JSON body, or its batches. -/
def textItems (writes : List SyncWrite) : List (JsString × Option Delivery) :=
  writes.map fun write => (write.name, some write.textDelivery)

def deleteItems (deletes : List JsString) : List (JsString × Option Delivery) :=
  deletes.map fun name => (name, none)

def deleteRequests (deletes : List JsString) : List Request := deletes.map fun name => ⟨.delete, [(name, none)]⟩

def buildInvocations (preset : ExecPreset) (writes : List SyncWrite) (deletes : List JsString) : List Request :=
  (if preset.jsonObject then
    (chunksOf preset.batch (textItems writes ++ if preset.deletesAsNull then deleteItems deletes else [])).map
      fun items => ⟨.write, items⟩
  else writes.map fun write => ⟨.write, [(write.name, some write.bytesDelivery)]⟩) ++
    if preset.deletesAsNull then [] else deleteRequests deletes

def buildBatches (preset : HttpPreset) (writes : List SyncWrite) (deletes : List JsString) : List Request :=
  let items := textItems writes ++ if preset.deletesInWrite then deleteItems deletes else []
  let size := match preset.write with
    | .upsert batch _ => batch
    | .createOrUpdate => max 1 items.length
  (chunksOf size items).map (fun items => ⟨.write, items⟩) ++ if preset.deletesInWrite then [] else deleteRequests deletes

/-- The other side: the requests it fails, and the names it confirms all the same. -/
structure Vendor where
  fails : Nat → Bool
  confirms : Nat → JsString → Bool

structure DriverResult where
  written : List JsString
  deleted : List JsString
  failure : Option Request

/-- What the target holds: the content last delivered under each name. -/
abbrev Store := OrderedMap JsString Delivery

def land (store : Store) (item : JsString × Option Delivery) : Store :=
  match item.2 with
  | some delivery => store.set item.1 delivery
  | none => store.delete item.1

/-- The loop over the requests, from the `i`th on: it stops at the first failure. -/
def runRequests (fails : Nat → Bool) (delivered : Nat → Request → List JsString) (deleteSet : List JsString) :
    Nat → DriverResult × Store → List Request → DriverResult × Store
  | _, acc, [] => acc
  | i, (result, store), request :: rest =>
    let names := delivered i request
    let result' : DriverResult :=
      { written := result.written ++ names.filter fun name => !deleteSet.contains name
        deleted := result.deleted ++ names.filter fun name => deleteSet.contains name
        failure := if fails i then some request else none }
    let store' := (request.items.filter fun item => names.contains item.1).foldl land store
    if fails i then (result', store') else runRequests fails delivered deleteSet (i + 1) (result', store') rest

attribute [grind =] runRequests

/-- A process that exits with another code delivers nothing. -/
def runInvocations (vendor : Vendor) (preset : ExecPreset) (work : ApplyWork) (store : Store) : DriverResult × Store :=
  runRequests vendor.fails (fun i request => if vendor.fails i then [] else request.names) work.deletes 0
    (⟨[], [], none⟩, store) (buildInvocations preset work.writes work.deletes)

/-- A batch that fails can have been taken in part. -/
def runBatches (vendor : Vendor) (preset : HttpPreset) (work : ApplyWork) (store : Store) : DriverResult × Store :=
  runRequests vendor.fails
    (fun i request => if vendor.fails i then request.names.filter (vendor.confirms i) else request.names) work.deletes 0
    (⟨[], [], none⟩, store) (buildBatches preset work.writes work.deletes)

def runDriver (vendor : Vendor) (target : SyncTarget) (work : ApplyWork) (store : Store) : DriverResult × Store :=
  match target.driver with
  | .exec spec => runInvocations vendor spec work store
  | .http spec => runBatches vendor spec work store

/-! ## The next receipt -/

/-- What was delivered goes over what was known. -/
def nextReceipt (target : SyncTarget) (previous : Option SyncReceipt) (result : DriverResult)
    (versions : OrderedMap JsString Nat) (syncedAt : JsString) : SyncReceipt where
  target := target.name
  preset := target.preset
  syncedAt := syncedAt
  versions := result.written.foldl (fun m name => m.set name ((versions.get? name).getD 0))
    (result.deleted.foldl (fun m name => m.delete name) (previousVersions previous))

/-- The text by which `toSorted()` compares an entry. -/
def entryText (e : JsString × Nat) : JsString := e.1 ++ lit "," ++ decimal e.2

def sortedEntries (versions : OrderedMap JsString Nat) : List (JsString × Nat) :=
  versions.entries.insertionSort fun a b => entryText a ≤ entryText b

def sameVariables (a : Option SyncReceipt) (b : SyncReceipt) : Bool :=
  match a with
  | none => b.versions.keys.length = 0
  | some a => sortedEntries a.versions = sortedEntries b.versions

/-- The receipt variable's text after `saveReceipt`. -/
def saveReceipt (loaded : Option SyncReceipt) (stored : Option Json) (receipt : SyncReceipt) : Option Json :=
  if sameVariables loaded receipt then stored else some (encodeReceipt receipt)

/-- The receipt of the target, none before the first sync. -/
def loadReceipt (target : SyncTarget) : Option Json → Except SyncError (Option SyncReceipt)
  | none => .ok none
  | some text =>
    match decodeReceipt text target.name with
    | .error reason => .error (.receipt reason)
    | .ok receipt => if receipt.preset ≠ target.preset then .error (.otherPreset receipt.preset) else .ok (some receipt)

end Maruhi.Sync
