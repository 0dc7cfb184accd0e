import Maruhi.Chain.Device
import Maruhi.Lib.Json
import Maruhi.Lib.Timeline

/-!
# The history index (`chain-history.ts`)

Every boundary is inclusive: what an entry establishes is valid at its own seq, and what it
ends is invalid there.
-/

open Timeline

namespace Maruhi.Chain

/-- One (role, scope) span of a tenure. -/
structure MemberSpan where
  fromSeq : Nat
  role : Role
  scope : MemberScope
  deriving DecidableEq, Repr

structure CapChange where
  fromSeq : Nat
  scope : MemberScope
  deriving DecidableEq, Repr

/-- One device's validity interval inside a tenure, with the caps deletions pruned it to. -/
structure DeviceRecord where
  device : ChainDevice
  revokedSeq : Option Nat
  capChanges : List CapChange
  deriving DecidableEq, Repr

structure TenureRecord where
  startSeq : Nat
  endSeq : Option Nat
  devices : List DeviceRecord
  spans : List MemberSpan
  deriving DecidableEq, Repr

structure EnvironmentRecord where
  createdAtSeq : Nat
  epochStarts : List (Nat × Nat)
  deletedAtSeq : Option Nat
  deriving DecidableEq, Repr

inductive CheckpointTupleRecord
  | tuple (seq epoch : Nat) (manifestSigHashHex : JsString)
  | conflict
  deriving DecidableEq, Repr

/-! ## Queries -/

structure MemberStateAtSeq where
  role : Role
  scope : MemberScope
  devices : OrderedMap KeyFingerprintHex ChainDevice
  tenureStartSeq : Nat
  deriving DecidableEq

structure DeviceStateAtSeq where
  device : ChainDevice
  permission : EffectivePermission
  tenureStartSeq : Nat
  deriving DecidableEq, Repr

structure EnvironmentStateAtSeq where
  createdAtSeq : Nat
  currentEpoch : Nat
  deletedAtSeq : Option Nat
  deriving DecidableEq, Repr

inductive CheckpointTupleLookup
  | unique (seq epoch : Nat) (manifestSigHashHex : JsString)
  | conflicting
  deriving DecidableEq, Repr

def spanAt (tenure : TenureRecord) (seq : Nat) : Option MemberSpan := currentAt (·.fromSeq) tenure.spans seq

def deviceActiveAt (record : DeviceRecord) (seq : Nat) : Bool :=
  record.device.addedSeq ≤ seq && record.revokedSeq.all fun revoked => seq < revoked

/-- The device as it stood at `seq`: its cap is the latest pruning, else the one it was added with. -/
def deviceAt (record : DeviceRecord) (seq : Nat) : ChainDevice :=
  match currentAt (·.fromSeq) record.capChanges seq with
  | none => record.device
  | some change => { record.device with scope := change.scope }

def activeDevicesAt (tenure : TenureRecord) (seq : Nat) : OrderedMap KeyFingerprintHex ChainDevice :=
  .ofEntries ((tenure.devices.filter fun record => deviceActiveAt record seq).map fun record =>
    (record.device.keyFingerprintHex, deviceAt record seq))

def epochAt (environment : EnvironmentRecord) (seq : Nat) : Option Nat :=
  (currentAt Prod.snd environment.epochStarts seq).map Prod.fst

def deletedAtOrBefore (environment : EnvironmentRecord) (seq : Nat) : Option Nat :=
  environment.deletedAtSeq.filter fun deletedAtSeq => deletedAtSeq ≤ seq

structure ChainHistoryIndex where
  entryHashes : List JsString
  tenures : OrderedMap UserId (List TenureRecord)
  environments : OrderedMap EnvironmentId EnvironmentRecord
  checkpointTuples : OrderedMap EnvironmentId (OrderedMap Nat CheckpointTupleRecord)
  latestCheckpoints : OrderedMap EnvironmentId EnvironmentCheckpointState

namespace ChainHistoryIndex
variable (index : ChainHistoryIndex)

def headSeq : Nat := index.entryHashes.length

def headHashHex : JsString := index.entryHashes.getLast?.getD []

/-- A seq the index answers for. -/
def inRange (seq : Nat) : Bool := seq ≤ Json.maxSafeInteger && 1 ≤ seq && seq ≤ index.headSeq

def entryHashAt (seq : Nat) : Option JsString :=
  if index.inRange seq then index.entryHashes[seq - 1]? else none

def tenureAt (userId : UserId) (seq : Nat) : Option TenureRecord :=
  if index.inRange seq then
    ((index.tenures.get? userId).getD []).find? fun candidate =>
      candidate.startSeq ≤ seq && candidate.endSeq.all fun endSeq => seq < endSeq
  else none

def memberStateAt (userId : UserId) (seq : Nat) : Option MemberStateAtSeq := do
  let tenure ← index.tenureAt userId seq
  let span ← spanAt tenure seq
  pure { role := span.role, scope := span.scope, devices := activeDevicesAt tenure seq,
         tenureStartSeq := tenure.startSeq }

def deviceStateAt (userId : UserId) (keyFingerprintHex : KeyFingerprintHex) (seq : Nat) :
    Option DeviceStateAtSeq := do
  let tenure ← index.tenureAt userId seq
  let span ← spanAt tenure seq
  let record ← tenure.devices.find? fun candidate =>
    candidate.device.keyFingerprintHex = keyFingerprintHex && deviceActiveAt candidate seq
  let device := deviceAt record seq
  pure { device, permission := permissionUnder span.role span.scope device.toDeviceCap,
         tenureStartSeq := tenure.startSeq }

def environmentStateAt (environmentId : EnvironmentId) (seq : Nat) : Option EnvironmentStateAtSeq := do
  guard (index.inRange seq)
  let environment ← index.environments.get? environmentId
  guard (environment.createdAtSeq ≤ seq)
  let currentEpoch ← epochAt environment seq
  pure { createdAtSeq := environment.createdAtSeq, currentEpoch,
         deletedAtSeq := deletedAtOrBefore environment seq }

def sigKeyByFingerprint (userId : UserId) (keyFingerprintHex : KeyFingerprintHex) : Option JsString :=
  ((index.tenures.get? userId).getD []).findSome? fun tenure =>
    (tenure.devices.find? fun candidate => candidate.device.keyFingerprintHex = keyFingerprintHex).map
      (·.device.sigPubHex)

def checkpointTupleFor (environmentId : EnvironmentId) (manifestVersion : Nat) : Option CheckpointTupleLookup := do
  guard (manifestVersion ≤ Json.maxSafeInteger && 1 ≤ manifestVersion)
  let perEnv ← index.checkpointTuples.get? environmentId
  let record ← perEnv.get? manifestVersion
  match record with
  | .conflict => pure .conflicting
  | .tuple seq epoch manifestSigHashHex => pure (.unique seq epoch manifestSigHashHex)

def latestCheckpointFor (environmentId : EnvironmentId) : Option EnvironmentCheckpointState :=
  index.latestCheckpoints.get? environmentId

end ChainHistoryIndex

/-! ## The recorder -/

structure ChainHistoryBuilder where
  entryHashes : List JsString
  tenures : OrderedMap UserId (List TenureRecord)
  environmentStarts : OrderedMap EnvironmentId EnvironmentRecord
  checkpointTuples : OrderedMap EnvironmentId (OrderedMap Nat CheckpointTupleRecord)
  latestCheckpoints : OrderedMap EnvironmentId EnvironmentCheckpointState

/-- The change points of a deletion on one tenure: only what lists the environment gets one. -/
def pruneSpans (environmentId : EnvironmentId) (seq : Nat) (spans : List MemberSpan) : List MemberSpan :=
  match spans.getLast? with
  | none => spans
  | some span =>
    let scope := scopeWithout span.scope environmentId
    if scope ≠ span.scope then spans ++ [{ fromSeq := seq, role := span.role, scope }] else spans

def pruneRecord (environmentId : EnvironmentId) (seq : Nat) (record : DeviceRecord) : DeviceRecord :=
  let cap := (deviceAt record seq).scope
  let pruned := scopeWithout cap environmentId
  if record.revokedSeq.isNone && pruned ≠ cap then
    { record with capChanges := record.capChanges ++ [{ fromSeq := seq, scope := pruned }] }
  else record

def pruneTenureAt (environmentId : EnvironmentId) (seq : Nat) (tenure : TenureRecord) : TenureRecord :=
  { tenure with
    spans := pruneSpans environmentId seq tenure.spans
    devices := tenure.devices.map (pruneRecord environmentId seq) }

def revokeRecord (seq : Nat) (revoked : List KeyFingerprintHex) (record : DeviceRecord) : DeviceRecord :=
  if record.revokedSeq.isNone && revoked.contains record.device.keyFingerprintHex then
    { record with revokedSeq := some seq }
  else record

/-- The last tenure rewritten, if it is open. -/
def updateOpenTenure (f : TenureRecord → TenureRecord) (tenures : List TenureRecord) : List TenureRecord :=
  match tenures.getLast? with
  | none => tenures
  | some last => if last.endSeq.isNone then tenures.dropLast ++ [f last] else tenures

namespace ChainHistoryBuilder
variable (history : ChainHistoryBuilder)

def new : ChainHistoryBuilder where
  entryHashes := []
  tenures := .empty
  environmentStarts := .empty
  checkpointTuples := .empty
  latestCheckpoints := .empty

def recordEntryHash (hash : JsString) : ChainHistoryBuilder :=
  { history with entryHashes := history.entryHashes ++ [hash] }

/-- What the source writes through the open tenure of `userId`; nothing when there is none. -/
def withOpenTenure (userId : UserId) (f : TenureRecord → TenureRecord) : ChainHistoryBuilder :=
  match history.tenures.get? userId with
  | none => history
  | some tenures => { history with tenures := history.tenures.set userId (updateOpenTenure f tenures) }

def recordTenureStart (userId : UserId) (startSeq : Nat) (firstDevice : ChainDevice) (role : Role)
    (scope : MemberScope) : ChainHistoryBuilder :=
  let record : TenureRecord :=
    { startSeq, endSeq := none
      devices := [{ device := firstDevice, revokedSeq := none, capChanges := [] }]
      spans := [{ fromSeq := startSeq, role, scope }] }
  { history with
    tenures := history.tenures.set userId ((history.tenures.get? userId).getD [] ++ [record]) }

def recordDeviceAdded (userId : UserId) (device : ChainDevice) : ChainHistoryBuilder :=
  history.withOpenTenure userId fun tenure =>
    { tenure with devices := tenure.devices ++ [{ device, revokedSeq := none, capChanges := [] }] }

def recordDevicesRevoked (userId : UserId) (seq : Nat) (keyFingerprintsHex : List KeyFingerprintHex) :
    ChainHistoryBuilder :=
  history.withOpenTenure userId fun tenure =>
    { tenure with devices := tenure.devices.map (revokeRecord seq keyFingerprintsHex) }

def recordRoleChange (userId : UserId) (seq : Nat) (role : Role) (scope : MemberScope) : ChainHistoryBuilder :=
  history.withOpenTenure userId fun tenure =>
    { tenure with spans := tenure.spans ++ [{ fromSeq := seq, role, scope }] }

def recordTenureEnd (userId : UserId) (seq : Nat) : ChainHistoryBuilder :=
  history.withOpenTenure userId fun tenure => { tenure with endSeq := some seq }

def recordEnvironmentCreated (environmentId : EnvironmentId) (seq : Nat) : ChainHistoryBuilder :=
  { history with
    environmentStarts := history.environmentStarts.set environmentId
      { createdAtSeq := seq, epochStarts := [(1, seq)], deletedAtSeq := none } }

def recordEnvironmentDeleted (environmentId : EnvironmentId) (seq : Nat) : ChainHistoryBuilder :=
  { history with
    environmentStarts := match history.environmentStarts.get? environmentId with
      | none => history.environmentStarts
      | some environment =>
        history.environmentStarts.set environmentId { environment with deletedAtSeq := some seq }
    latestCheckpoints := history.latestCheckpoints.delete environmentId
    tenures := history.tenures.mapValues (updateOpenTenure (pruneTenureAt environmentId seq)) }

def recordEpochRotated (environmentId : EnvironmentId) (newEpoch seq : Nat) : ChainHistoryBuilder :=
  match history.environmentStarts.get? environmentId with
  | none => history
  | some environment =>
    { history with
      environmentStarts := history.environmentStarts.set environmentId
        { environment with epochStarts := environment.epochStarts ++ [(newEpoch, seq)] } }

/-- The record of one coordinate after another tuple for it: the values digest plays no part. -/
def mergeTuple (existing : Option CheckpointTupleRecord) (seq epoch : Nat) (manifestSigHashHex : JsString) :
    CheckpointTupleRecord :=
  match existing with
  | none => .tuple seq epoch manifestSigHashHex
  | some .conflict => .conflict
  | some (.tuple seq' epoch' manifestSigHashHex') =>
    if epoch' ≠ epoch || manifestSigHashHex' ≠ manifestSigHashHex then .conflict
    else .tuple seq' epoch' manifestSigHashHex'

def recordTuple (seq : Nat) (tuple : CheckpointEnvironmentEntry) : ChainHistoryBuilder :=
  let perEnv := (history.checkpointTuples.get? tuple.environmentId).getD .empty
  { history with
    checkpointTuples := history.checkpointTuples.set tuple.environmentId
      (perEnv.set tuple.manifestVersion
        (mergeTuple (perEnv.get? tuple.manifestVersion) seq tuple.epoch tuple.manifestSigHashHex))
    latestCheckpoints := history.latestCheckpoints.set tuple.environmentId
      { seq, epoch := tuple.epoch, manifestVersion := tuple.manifestVersion
        manifestSigHashHex := tuple.manifestSigHashHex, valuesDigestHex := tuple.valuesDigestHex } }

def recordCheckpoint (seq : Nat) (environments : List CheckpointEnvironmentEntry) : ChainHistoryBuilder :=
  environments.foldl (fun history tuple => history.recordTuple seq tuple) history

def build : ChainHistoryIndex where
  entryHashes := history.entryHashes
  tenures := history.tenures
  environments := history.environmentStarts
  checkpointTuples := history.checkpointTuples
  latestCheckpoints := history.latestCheckpoints

end ChainHistoryBuilder

end Maruhi.Chain
