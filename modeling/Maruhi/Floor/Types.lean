import Maruhi.Lib.Json
import Maruhi.Lib.Record

/-!
# The local floor: what a client has verified so far

The types of `floor.ts`. A value here has the form its decoder checks: a version is a positive safe
integer, a hash is 64 lowercase hex digits, and a key of a record is an id.
-/

open Text

namespace Maruhi.Floor

/-! ## Numbers, hashes and ids -/

/-- A version, an epoch or a sequence number. -/
abbrev PositiveInt := { n : Nat // 1 ≤ n ∧ n ≤ Json.maxSafeInteger }

abbrev Natural := { n : Nat // n ≤ Json.maxSafeInteger }

def PositiveInt.toNatural (n : PositiveInt) : Natural := ⟨n.1, n.2.2⟩

-- Fixed here, so that floors are joined by the same instance in every module.
instance maxEqOrNat : Std.MaxEqOr Nat := inferInstance

instance : OfNat Natural 0 := ⟨⟨0, Nat.zero_le _⟩⟩

def isLowerHex (u : UInt16) : Bool := (hexValue? u).isSome

def isHexOfLength (length : Nat) (s : JsString) : Bool := s.length = length && s.all isLowerHex

/-- `/^[0-9a-f]{64}$/` -/
abbrev HashHex := { s : JsString // isHexOfLength 64 s = true }

/-- `/^[0-9a-f]{16}$/` -/
abbrev IntentId := { s : JsString // isHexOfLength 16 s = true }

def isAlphanumeric (u : UInt16) : Bool :=
  (48 ≤ u.toNat && u.toNat ≤ 57) || (65 ≤ u.toNat && u.toNat ≤ 90) || (97 ≤ u.toNat && u.toNat ≤ 122)

/-- `/^[A-Za-z0-9][A-Za-z0-9_-]{0,63}$/` -/
def isResourceId : JsString → Bool
  | [] => false
  | u :: rest => isAlphanumeric u && rest.length ≤ 63 && rest.all fun v => isAlphanumeric v || v = 95 || v = 45

structure ResourceId where
  text : JsString
  valid : isResourceId text = true
  deriving DecidableEq

abbrev EnvironmentId := ResourceId

abbrev VariableId := ResourceId

instance : PropertyKey ResourceId := ⟨ResourceId.text, fun k k' h => by cases k; cases k'; cases h; rfl⟩

/-! ## The floor -/

structure ChainHeadFloor where
  seq : PositiveInt
  hashHex : HashHex
  deriving DecidableEq

/-- The latest statement about a variable or an environment. -/
structure MetaSide where
  metaVersion : PositiveInt
  metaSigHashHex : HashHex
  deriving DecidableEq

/-- The latest value of an active variable. -/
structure ValueSide where
  version : PositiveInt
  epoch : PositiveInt
  valueSigHashHex : HashHex
  deriving DecidableEq

inductive VariableFloor
  | active (value : ValueSide) (side : MetaSide)
  | declared (side : MetaSide)
  | deleted (side : MetaSide)
  deriving DecidableEq

structure ManifestFloor where
  manifestVersion : PositiveInt
  epoch : PositiveInt
  manifestSigHashHex : HashHex
  deriving DecidableEq

/-- `side` is absent where the source has `metaVersion: 0` with an empty hash. -/
structure EnvironmentFloor where
  pullEpoch : Natural
  observedEpoch : Natural
  side : Option MetaSide
  manifest : Option ManifestFloor
  variableFloors : Record VariableId VariableFloor
  deriving DecidableEq

namespace EnvironmentFloor

def metaVersion (floor : EnvironmentFloor) : Nat := floor.side.elim 0 (·.metaVersion.1)

def metaSigHashHex (floor : EnvironmentFloor) : JsString := floor.side.elim [] (·.metaSigHashHex.1)

end EnvironmentFloor

def emptyEnvironmentFloor : EnvironmentFloor := ⟨0, 0, none, none, Record.empty⟩

inductive ConflictKind
  | chainHead
  | value
  | variableMeta
  | environmentMeta
  | manifest
  | undeletion
  deriving DecidableEq, Repr

/-- Two observations that the join does not order. -/
structure FloorConflict where
  kind : ConflictKind
  environmentId : Option EnvironmentId
  variableId : Option VariableId
  firstVersion : Natural
  firstHashHex : JsString
  secondVersion : Natural
  secondHashHex : JsString
  deriving DecidableEq

inductive ManifestIntentOp
  | createEnvironment
  | rotateEpoch
  | metaOp
  deriving DecidableEq, Repr

structure ManifestFloorIntent where
  id : IntentId
  op : ManifestIntentOp
  environmentId : EnvironmentId
  epoch : PositiveInt
  dekCommitmentHex : Option HashHex
  variableId : Option VariableId
  manifestVersion : PositiveInt
  manifestSigHashHex : HashHex
  declaredHead : ChainHeadFloor
  deriving DecidableEq

structure DeletionFloorIntent where
  id : IntentId
  environmentId : EnvironmentId
  declaredHead : ChainHeadFloor
  deriving DecidableEq

/-- What a client recorded before it sent a mutation. -/
inductive FloorIntent
  | manifest (intent : ManifestFloorIntent)
  | deletion (intent : DeletionFloorIntent)
  deriving DecidableEq

def FloorIntent.id : FloorIntent → IntentId
  | manifest intent => intent.id
  | deletion intent => intent.id

inductive FloorIntentOutcome
  | accepted
  | acceptedSuperseded
  | rejected
  | notAccepted
  | superseded
  deriving DecidableEq, Repr

structure ProjectFloor where
  chainHead : Option ChainHeadFloor
  environments : Record EnvironmentId EnvironmentFloor
  conflicts : List FloorConflict
  intents : List FloorIntent
  deriving DecidableEq

/-- A snapshot record's content is the fold result. -/
abbrev SnapshotState := ProjectFloor

/-- One line of the log. -/
inductive FloorLogRecord
  | head (head : ChainHeadFloor)
  | pull (head : ChainHeadFloor) (environmentId : EnvironmentId) (environment : EnvironmentFloor)
  | push (head : ChainHeadFloor) (environmentId : EnvironmentId) (variableId : VariableId) (floor : VariableFloor)
  | metadata (head : ChainHeadFloor) (environmentId : EnvironmentId) (observedEpoch : PositiveInt) (side : MetaSide)
    (manifest : ManifestFloor)
  | manifest (head : ChainHeadFloor) (environmentId : EnvironmentId) (manifest : ManifestFloor)
  | intent (intent : FloorIntent)
  | resolution (intentId : IntentId) (outcome : FloorIntentOutcome)
  | snapshot (folded : Natural) (state : SnapshotState)

end Maruhi.Floor
