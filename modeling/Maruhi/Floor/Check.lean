import Maruhi.Floor.Order

/-!
# The floor check of a pull

The checks of `floor-check.ts`: what a verified pull must not take back, and the floor that it establishes.
-/

open Text

namespace Maruhi.Floor

/-! ## Verified pulls -/

structure VerifiedMetaEvidence where
  status : VariableStatus
  metaVersion : PositiveInt
  metaSigHashHex : HashHex
  chainHeadSeq : Natural
  chainHeadHashHex : JsString
  signatureHex : JsString
  authorUserId : JsString
  authorKeyFingerprintHex : JsString
  deriving DecidableEq

/-- A verified deletion. -/
structure VerifiedTombstone extends VerifiedMetaEvidence where
  variableId : VariableId
  deleted : status = .deleted
  deriving DecidableEq

/-- A verified statement about a variable that is not deleted. -/
structure VerifiedVariableStatement extends VerifiedMetaEvidence where
  variableId : VariableId
  live : status ≠ .deleted
  deriving DecidableEq

structure VerifiedPulledValue where
  variableId : VariableId
  version : PositiveInt
  epoch : PositiveInt
  signedBytesHashHex : HashHex
  metaVersion : PositiveInt
  metaSignedBytesHashHex : HashHex
  valueChainHeadSeq : Natural
  valueChainHeadHashHex : JsString
  metaChainHeadSeq : Natural
  metaChainHeadHashHex : JsString
  valueSignatureHex : JsString
  writerUserId : JsString
  writerKeyFingerprintHex : JsString
  metaSignatureHex : JsString
  authorUserId : JsString
  authorKeyFingerprintHex : JsString
  deriving DecidableEq

structure VerifiedManifest where
  manifestVersion : PositiveInt
  epoch : PositiveInt
  variablesDigestHex : JsString
  envMetaVersion : PositiveInt
  envMetaSigHashHex : JsString
  prevManifestSigHashHex : JsString
  signedBytesHashHex : HashHex
  chainHeadSeq : Natural
  chainHeadHashHex : JsString
  signatureHex : JsString
  issuerUserId : JsString
  issuerKeyFingerprintHex : JsString
  deriving DecidableEq

/-- `values` is the `variables` of the source. -/
structure VerifiedPullSnapshot where
  environment : VerifiedMetaEvidence
  values : List VerifiedPulledValue
  declared : List VerifiedVariableStatement
  tombstones : List VerifiedTombstone
  manifest : VerifiedManifest

/-- A metadata-only pull: `statements` is the `variables` of the source, active and declared ones. -/
structure VerifiedMetadataSnapshot where
  environment : VerifiedMetaEvidence
  statements : List VerifiedVariableStatement
  tombstones : List VerifiedTombstone
  manifest : VerifiedManifest

structure PulledValueEvidence where
  version : PositiveInt
  epoch : PositiveInt
  valueSigHashHex : HashHex
  chainHeadSeq : Natural
  chainHeadHashHex : JsString
  signatureHex : JsString
  writerUserId : JsString
  writerKeyFingerprintHex : JsString
  deriving DecidableEq

structure FloorMetaEvidence where
  metaVersion : Natural
  metaSigHashHex : JsString
  deriving DecidableEq

structure ActiveVariableFloor where
  value : ValueSide
  side : MetaSide
  deriving DecidableEq

/-- A violation. A statement's `variableId` is absent where its target is the environment. -/
inductive FloorViolation
  | variableOmitted (variableId : VariableId) (floor : VariableFloor)
  | valueRollback (variableId : VariableId) (floor : ActiveVariableFloor) (pulled : PulledValueEvidence)
  | valueEquivocation (variableId : VariableId) (floor : ActiveVariableFloor) (pulled : PulledValueEvidence)
  | valueEpochRegression (variableId : VariableId) (floor : ActiveVariableFloor) (pulled : PulledValueEvidence)
  | staleEpochInjection (variableId : VariableId) (baselineEpoch floorVersion : Natural) (pulled : PulledValueEvidence)
  | metaRollback (variableId : Option VariableId) (floor : FloorMetaEvidence) (pulled : VerifiedMetaEvidence)
  | metaEquivocation (variableId : Option VariableId) (floor : FloorMetaEvidence) (pulled : VerifiedMetaEvidence)
  | deletionRevoked (variableId : VariableId) (floor : FloorMetaEvidence) (pulled : VerifiedMetaEvidence)
  | tombstoneMismatch (variableId : VariableId) (floor : FloorMetaEvidence) (pulled : VerifiedMetaEvidence)
  | manifestRollback (floor : ManifestFloor) (pulled : VerifiedManifest)
  | manifestEquivocation (floor : ManifestFloor) (pulled : VerifiedManifest)
  | staleManifestInjection (baselineEpoch floorManifestVersion : Natural) (pulled : VerifiedManifest)
  deriving DecidableEq

def valueEvidenceOf (value : VerifiedPulledValue) : PulledValueEvidence where
  version := value.version
  epoch := value.epoch
  valueSigHashHex := value.signedBytesHashHex
  chainHeadSeq := value.valueChainHeadSeq
  chainHeadHashHex := value.valueChainHeadHashHex
  signatureHex := value.valueSignatureHex
  writerUserId := value.writerUserId
  writerKeyFingerprintHex := value.writerKeyFingerprintHex

def metaEvidenceOf (value : VerifiedPulledValue) : VerifiedMetaEvidence where
  status := .active
  metaVersion := value.metaVersion
  metaSigHashHex := value.metaSignedBytesHashHex
  chainHeadSeq := value.metaChainHeadSeq
  chainHeadHashHex := value.metaChainHeadHashHex
  signatureHex := value.metaSignatureHex
  authorUserId := value.authorUserId
  authorKeyFingerprintHex := value.authorKeyFingerprintHex

def MetaSide.floorMeta (side : MetaSide) : FloorMetaEvidence := ⟨side.metaVersion.toNatural, side.metaSigHashHex.1⟩

def EnvironmentFloor.floorMeta (floor : EnvironmentFloor) : FloorMetaEvidence :=
  floor.side.elim ⟨0, []⟩ MetaSide.floorMeta

def ActiveVariableFloor.toFloor (floor : ActiveVariableFloor) : VariableFloor := .active floor.value floor.side

/-! ## The checks -/

def checkMetaAgainstFloor (variableId : Option VariableId) (floor : FloorMetaEvidence) (pulled : VerifiedMetaEvidence) :
    Option FloorViolation :=
  if pulled.metaVersion.toNatural < floor.metaVersion then some (.metaRollback variableId floor pulled)
  else if pulled.metaVersion.toNatural = floor.metaVersion ∧ pulled.metaSigHashHex.1 ≠ floor.metaSigHashHex then
    some (.metaEquivocation variableId floor pulled)
  else none

def checkManifestAgainstFloor (floor : EnvironmentFloor) (manifest : VerifiedManifest) : Option FloorViolation :=
  match floor.manifest with
  | none => none
  | some manifestFloor =>
    if manifest.manifestVersion < manifestFloor.manifestVersion then some (.manifestRollback manifestFloor manifest)
    else if manifest.manifestVersion = manifestFloor.manifestVersion ∧
        manifest.signedBytesHashHex ≠ manifestFloor.manifestSigHashHex then
      some (.manifestEquivocation manifestFloor manifest)
    else none

/-- The epoch below which no newer manifest can be. -/
def manifestBaseline (floor : EnvironmentFloor) : Natural :=
  max (max floor.pullEpoch floor.observedEpoch) (floor.manifest.elim 0 fun manifest => manifest.epoch.toNatural)

def checkManifestEpochBaseline (floor : EnvironmentFloor) (manifest : VerifiedManifest) : Option FloorViolation :=
  let floorVersion : Natural := floor.manifest.elim 0 fun manifest => manifest.manifestVersion.toNatural
  if manifest.manifestVersion.toNatural > floorVersion ∧ manifest.epoch.toNatural < manifestBaseline floor then
    some (.staleManifestInjection (manifestBaseline floor) floorVersion manifest)
  else none

def checkActiveVariable (floor : ActiveVariableFloor) (value : VerifiedPulledValue) : Option FloorViolation :=
  if value.version < floor.value.version then
    some (.valueRollback value.variableId floor (valueEvidenceOf value))
  else if value.version = floor.value.version ∧ value.signedBytesHashHex ≠ floor.value.valueSigHashHex then
    some (.valueEquivocation value.variableId floor (valueEvidenceOf value))
  else if value.version > floor.value.version ∧ value.epoch < floor.value.epoch then
    some (.valueEpochRegression value.variableId floor (valueEvidenceOf value))
  else checkMetaAgainstFloor (some value.variableId) floor.side.floorMeta (metaEvidenceOf value)

def checkFloorActiveMeta (variableId : VariableId) (floor : ActiveVariableFloor) (active : Option VerifiedMetaEvidence)
    (tombstone : Option VerifiedTombstone) : Option FloorViolation :=
  match active, tombstone with
  | some active, _ => checkMetaAgainstFloor (some variableId) floor.side.floorMeta active
  | none, some tombstone =>
    checkMetaAgainstFloor (some variableId) floor.side.floorMeta tombstone.toVerifiedMetaEvidence
  | none, none => some (.variableOmitted variableId floor.toFloor)

def checkFloorActive (variableId : VariableId) (floor : ActiveVariableFloor) (active : Option VerifiedPulledValue)
    (tombstone : Option VerifiedTombstone) : Option FloorViolation :=
  match active with
  | some active => checkActiveVariable floor active
  | none => checkFloorActiveMeta variableId floor none tombstone

def checkFloorDeclared (variableId : VariableId) (side : MetaSide) (statement : Option VerifiedMetaEvidence)
    (tombstone : Option VerifiedTombstone) : Option FloorViolation :=
  match statement.or (tombstone.map VerifiedTombstone.toVerifiedMetaEvidence) with
  | none => some (.variableOmitted variableId (.declared side))
  | some evidence => checkMetaAgainstFloor (some variableId) side.floorMeta evidence

def checkFloorDeleted (variableId : VariableId) (side : MetaSide) (active : Option VerifiedMetaEvidence)
    (tombstone : Option VerifiedTombstone) : Option FloorViolation :=
  match active, tombstone with
  | some active, _ => some (.deletionRevoked variableId side.floorMeta active)
  | none, none => some (.variableOmitted variableId (.deleted side))
  | none, some tombstone =>
    if tombstone.metaVersion ≠ side.metaVersion ∨ tombstone.metaSigHashHex ≠ side.metaSigHashHex then
      some (.tombstoneMismatch variableId side.floorMeta tombstone.toVerifiedMetaEvidence)
    else none

section Common
variable {T : Type} (idOf : T → VariableId) (toMeta : T → VerifiedMetaEvidence)
  (checkActive : VariableId → ActiveVariableFloor → Option T → Option VerifiedTombstone → Option FloorViolation)

/-- One turn of the loop over `Object.entries(floor.variables)`. -/
def checkVariableFloor (actives : OrderedMap VariableId T) (declared : OrderedMap VariableId VerifiedVariableStatement)
    (tombstones : OrderedMap VariableId VerifiedTombstone) (e : VariableId × VariableFloor) : Option FloorViolation :=
  match e.2 with
  | .active value side => checkActive e.1 ⟨value, side⟩ (actives.get? e.1) (tombstones.get? e.1)
  | .declared side => checkFloorDeclared e.1 side (statementOf e.1) (tombstones.get? e.1)
  | .deleted side => checkFloorDeleted e.1 side (statementOf e.1) (tombstones.get? e.1)
where
  statementOf (variableId : VariableId) : Option VerifiedMetaEvidence :=
    match actives.get? variableId with
    | none => (declared.get? variableId).map VerifiedVariableStatement.toVerifiedMetaEvidence
    | some active => some (toMeta active)

def checkFloorCommon (floor : EnvironmentFloor) (environment : VerifiedMetaEvidence) (activeList : List T)
    (declaredList : List VerifiedVariableStatement) (tombstoneList : List VerifiedTombstone) : Option FloorViolation :=
  let actives := OrderedMap.ofEntries (activeList.map fun active => (idOf active, active))
  let declared := OrderedMap.ofEntries (declaredList.map fun statement => (statement.variableId, statement))
  let tombstones := OrderedMap.ofEntries (tombstoneList.map fun tombstone => (tombstone.variableId, tombstone))
  (checkMetaAgainstFloor none floor.floorMeta environment).or
    (floor.variableFloors.entries.findSome? (checkVariableFloor toMeta checkActive actives declared tombstones))

end Common

/-- Rule (c) for one value: newer than the floor, below the epoch of the last pull. -/
def checkStaleEpoch (floor : EnvironmentFloor) (value : VerifiedPulledValue) : Option FloorViolation :=
  let floorVersion : Natural := match floor.variableFloors.get? value.variableId with
    | some (.active known _) => known.version.toNatural
    | _ => 0
  if value.version.toNatural > floorVersion ∧ value.epoch.toNatural < floor.pullEpoch then
    some (.staleEpochInjection value.variableId floor.pullEpoch floorVersion (valueEvidenceOf value))
  else none

def checkEnvironmentPull (floor : Option EnvironmentFloor) (snapshot : VerifiedPullSnapshot) : Option FloorViolation :=
  match floor with
  | none => none
  | some floor =>
    (checkFloorCommon VerifiedPulledValue.variableId metaEvidenceOf checkFloorActive floor snapshot.environment
        snapshot.values snapshot.declared snapshot.tombstones).or
      (((checkManifestAgainstFloor floor snapshot.manifest).or (checkManifestEpochBaseline floor snapshot.manifest)).or
        (snapshot.values.findSome? (checkStaleEpoch floor)))

def checkEnvironmentMetadataPull (floor : Option EnvironmentFloor) (snapshot : VerifiedMetadataSnapshot) :
    Option FloorViolation :=
  match floor with
  | none => none
  | some floor =>
    (checkFloorCommon VerifiedVariableStatement.variableId VerifiedVariableStatement.toVerifiedMetaEvidence
        (fun id known active tombstone =>
          checkFloorActiveMeta id known (active.map VerifiedVariableStatement.toVerifiedMetaEvidence) tombstone)
        floor snapshot.environment snapshot.statements [] snapshot.tombstones).or
      ((checkManifestAgainstFloor floor snapshot.manifest).or (checkManifestEpochBaseline floor snapshot.manifest))

/-! ## The floor of a pull -/

def VerifiedMetaEvidence.side (evidence : VerifiedMetaEvidence) : MetaSide := ⟨evidence.metaVersion, evidence.metaSigHashHex⟩

def VerifiedPulledValue.floor (value : VerifiedPulledValue) : VariableFloor :=
  .active ⟨value.version, value.epoch, value.signedBytesHashHex⟩ ⟨value.metaVersion, value.metaSignedBytesHashHex⟩

def VerifiedManifest.floor (manifest : VerifiedManifest) : ManifestFloor :=
  ⟨manifest.manifestVersion, manifest.epoch, manifest.signedBytesHashHex⟩

/-- The variables that `buildEnvironmentFloor` assigns, in its order. -/
def VerifiedPullSnapshot.floors (snapshot : VerifiedPullSnapshot) : List (VariableId × VariableFloor) :=
  (snapshot.values.map fun value => (value.variableId, value.floor)) ++
    (snapshot.declared.map fun statement => (statement.variableId, .declared statement.side)) ++
    snapshot.tombstones.map fun tombstone => (tombstone.variableId, .deleted tombstone.side)

def buildEnvironmentFloor (chainCurrentEpoch : Natural) (snapshot : VerifiedPullSnapshot) : EnvironmentFloor where
  pullEpoch := chainCurrentEpoch
  observedEpoch := chainCurrentEpoch
  side := some snapshot.environment.side
  manifest := some snapshot.manifest.floor
  variableFloors := Record.ofEntries snapshot.floors

end Maruhi.Floor
