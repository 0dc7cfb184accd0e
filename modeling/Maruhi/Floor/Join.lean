import Maruhi.Floor.Types
import Maruhi.Lib.TextOrder

/-!
# Joining floors

`joinVersioned` and the joins over it. Each join yields the joined floor and the conflicts it sinks,
in the order the source sinks them.
-/

open Text

namespace Maruhi.Floor

structure VersionedEvidence where
  version : Natural
  hashHex : JsString
  deriving DecidableEq

def ChainHeadFloor.evidence (head : ChainHeadFloor) : VersionedEvidence := ⟨head.seq.toNatural, head.hashHex.1⟩

def MetaSide.evidence (side : MetaSide) : VersionedEvidence := ⟨side.metaVersion.toNatural, side.metaSigHashHex.1⟩

def ValueSide.evidence (value : ValueSide) : VersionedEvidence := ⟨value.version.toNatural, value.valueSigHashHex.1⟩

def ManifestFloor.evidence (manifest : ManifestFloor) : VersionedEvidence :=
  ⟨manifest.manifestVersion.toNatural, manifest.manifestSigHashHex.1⟩

/-- The conflict of two observations at one coordinate. -/
def conflictOf (kind : ConflictKind) (environmentId : Option EnvironmentId) (variableId : Option VariableId)
    (first second : VersionedEvidence) : FloorConflict :=
  ⟨kind, environmentId, variableId, first.version, first.hashHex, second.version, second.hashHex⟩

def joinVersioned {T : Type} (evidence : T → VersionedEvidence) (a b : T)
    (conflict : VersionedEvidence → VersionedEvidence → FloorConflict) : T × List FloorConflict :=
  if (evidence a).version ≠ (evidence b).version then (if (evidence a).version > (evidence b).version then a else b, [])
  else if (evidence a).hashHex = (evidence b).hashHex then (a, [])
  else (if (evidence b).hashHex < (evidence a).hashHex then a else b, [conflict (evidence a) (evidence b)])

def joinChainHead (existing : Option ChainHeadFloor) (incoming : ChainHeadFloor) :
    ChainHeadFloor × List FloorConflict :=
  match existing with
  | none => (incoming, [])
  | some existing => joinVersioned ChainHeadFloor.evidence existing incoming (conflictOf .chainHead none none)

def joinMetaSide (environmentId : EnvironmentId) (variableId : Option VariableId) (a b : MetaSide) :
    MetaSide × List FloorConflict :=
  joinVersioned MetaSide.evidence a b
    (conflictOf (if variableId = none then .environmentMeta else .variableMeta) (some environmentId) variableId)

attribute [grind =] joinMetaSide

/-- `deleted` is terminal. A live statement after it, or beside it at the same version, is evidence. -/
def joinDeletedWithLive (environmentId : EnvironmentId) (variableId : VariableId) (deleted live : MetaSide) :
    VariableFloor × List FloorConflict :=
  let conflict kind := conflictOf kind (some environmentId) (some variableId) deleted.evidence live.evidence
  (.deleted deleted,
    if live.metaVersion > deleted.metaVersion then [conflict .undeletion]
    else if live.metaVersion = deleted.metaVersion then [conflict .variableMeta]
    else [])

def joinVariableFloor (environmentId : EnvironmentId) (variableId : VariableId) (existing : Option VariableFloor)
    (incoming : VariableFloor) : VariableFloor × List FloorConflict :=
  match existing with
  | none => (incoming, [])
  | some existing =>
    match existing, incoming with
    | .deleted a, .deleted b =>
      let side := joinMetaSide environmentId (some variableId) a b
      (.deleted side.1, side.2)
    | .deleted a, .active _ b => joinDeletedWithLive environmentId variableId a b
    | .deleted a, .declared b => joinDeletedWithLive environmentId variableId a b
    | .active _ a, .deleted b => joinDeletedWithLive environmentId variableId b a
    | .declared a, .deleted b => joinDeletedWithLive environmentId variableId b a
    | .declared a, .declared b =>
      let side := joinMetaSide environmentId (some variableId) a b
      (.declared side.1, side.2)
    | .active value a, .declared b =>
      let side := joinMetaSide environmentId (some variableId) a b
      (.active value side.1, side.2)
    | .declared a, .active value b =>
      let side := joinMetaSide environmentId (some variableId) a b
      (.active value side.1, side.2)
    | .active u a, .active v b =>
      let side := joinMetaSide environmentId (some variableId) a b
      let value := joinVersioned ValueSide.evidence u v (conflictOf .value (some environmentId) (some variableId))
      (.active value.1 side.1, side.2 ++ value.2)

attribute [grind =] joinVariableFloor

def joinManifestFloor (environmentId : EnvironmentId) (existing incoming : Option ManifestFloor) :
    Option ManifestFloor × List FloorConflict :=
  match existing, incoming with
  | none, incoming => (incoming, [])
  | some existing, none => (some existing, [])
  | some existing, some incoming =>
    let joined := joinVersioned ManifestFloor.evidence existing incoming
      (conflictOf .manifest (some environmentId) none)
    (some joined.1, joined.2)

/-- The meta part of `joinEnvironmentFloor`: a floor at metaVersion 0 has none. -/
def joinEnvironmentSide (environmentId : EnvironmentId) (existing incoming : Option MetaSide) :
    Option MetaSide × List FloorConflict :=
  match existing, incoming with
  | none, incoming => (incoming, [])
  | some existing, none => (some existing, [])
  | some existing, some incoming =>
    let joined := joinMetaSide environmentId none existing incoming
    (some joined.1, joined.2)

/-- One turn of the loop over the incoming variables. -/
def joinVariableInto (environmentId : EnvironmentId) (existing : Record VariableId VariableFloor)
    (joined : Record VariableId VariableFloor × List FloorConflict) (e : VariableId × VariableFloor) :
    Record VariableId VariableFloor × List FloorConflict :=
  (joined.1.set e.1 (joinVariableFloor environmentId e.1 (existing.get? e.1) e.2).1,
    joined.2 ++ (joinVariableFloor environmentId e.1 (existing.get? e.1) e.2).2)

/-- The loop over `Object.entries(incoming.variables)`. -/
def joinVariables (environmentId : EnvironmentId) (existing : Record VariableId VariableFloor)
    (incoming : List (VariableId × VariableFloor)) (joined : Record VariableId VariableFloor × List FloorConflict) :
    Record VariableId VariableFloor × List FloorConflict :=
  incoming.foldl (joinVariableInto environmentId existing) joined

def joinEnvironmentFloor (environmentId : EnvironmentId) (existing : Option EnvironmentFloor)
    (incoming : EnvironmentFloor) : EnvironmentFloor × List FloorConflict :=
  match existing with
  | none => (incoming, [])
  | some existing =>
    let side := joinEnvironmentSide environmentId existing.side incoming.side
    let manifest := joinManifestFloor environmentId existing.manifest incoming.manifest
    let floors :=
      joinVariables environmentId existing.variableFloors incoming.variableFloors.entries (existing.variableFloors, [])
    ({ pullEpoch := max existing.pullEpoch incoming.pullEpoch
       observedEpoch := max existing.observedEpoch incoming.observedEpoch
       side := side.1
       manifest := manifest.1
       variableFloors := floors.1 },
      side.2 ++ manifest.2 ++ floors.2)

/-! ## What a join yields -/

section JoinVersioned
variable {T : Type} (evidence : T → VersionedEvidence) (a b : T)
  (conflict : VersionedEvidence → VersionedEvidence → FloorConflict)

theorem joinVersioned_or : (joinVersioned evidence a b conflict).1 = a ∨ (joinVersioned evidence a b conflict).1 = b := by
  unfold joinVersioned
  split_ifs <;> simp

theorem joinVersioned_conflict : (joinVersioned evidence a b conflict).2 ≠ [] ↔
    (evidence a).version = (evidence b).version ∧ (evidence a).hashHex ≠ (evidence b).hashHex := by
  unfold joinVersioned
  split_ifs with hv hh <;> simp_all

@[simp] theorem joinVersioned_self : joinVersioned evidence a a conflict = (a, []) := by simp [joinVersioned]

end JoinVersioned

theorem joinVariables_get? (environmentId : EnvironmentId) (existing : Record VariableId VariableFloor)
    (incoming : List (VariableId × VariableFloor)) (hn : (incoming.map Prod.fst).Nodup)
    (joined : Record VariableId VariableFloor × List FloorConflict) (id : VariableId) :
    (joinVariables environmentId existing incoming joined).1.get? id =
      ((incoming.lookup id).map fun floor => (joinVariableFloor environmentId id (existing.get? id) floor).1).or
        (joined.1.get? id) := by
  unfold joinVariables
  induction incoming generalizing joined with
  | nil => simp
  | cons e rest ih =>
    rw [List.map_cons, List.nodup_cons] at hn
    have hstep : (joinVariableInto environmentId existing joined e).1.get? id =
        if id = e.1 then some (joinVariableFloor environmentId e.1 (existing.get? e.1) e.2).1 else joined.1.get? id :=
      Record.get?_set _ _ _ _
    rw [List.foldl_cons, ih hn.2, lookup_cons_if, hstep]
    by_cases hid : id = e.1
    · have hout : rest.lookup id = none := by
        rw [← Option.not_isSome_iff_eq_none, lookup_isSome_iff, hid]
        exact hn.1
      subst hid
      simp [hout]
    · simp [hid]

theorem joinVariables_conflicts (environmentId : EnvironmentId) (existing : Record VariableId VariableFloor)
    (incoming : List (VariableId × VariableFloor)) (joined : Record VariableId VariableFloor × List FloorConflict) :
    (joinVariables environmentId existing incoming joined).2 =
      joined.2 ++ incoming.flatMap fun e => (joinVariableFloor environmentId e.1 (existing.get? e.1) e.2).2 := by
  unfold joinVariables
  induction incoming generalizing joined with
  | nil => simp
  | cons e rest ih =>
    rw [List.foldl_cons, ih, List.flatMap_cons, ← List.append_assoc]
    rfl

end Maruhi.Floor
