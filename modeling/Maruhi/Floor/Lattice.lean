import Maruhi.Floor.Fold
import Maruhi.Lib.Joins
import Mathlib.Data.Prod.Lex
import Mathlib.Order.BoundedOrder.Lattice
import Mathlib.Order.WithBot

/-!
# The floor as a join semilattice

What a floor knows, without the epochs: at each coordinate the latest evidence, a deletion above every
live statement. Applying an observation joins what it tells.
-/

open Text

namespace Maruhi.Floor

/-! ## Evidence -/

instance : LinearOrder VersionedEvidence :=
  LinearOrder.lift' (fun e => toLex (e.version, e.hashHex)) fun a b h => by
    obtain ⟨hv, hh⟩ := Prod.mk.inj (toLex.injective h)
    cases a
    cases b
    exact congrArg₂ _ hv hh

theorem evidence_le_iff (a b : VersionedEvidence) :
    a ≤ b ↔ a.version < b.version ∨ a.version = b.version ∧ a.hashHex ≤ b.hashHex := Prod.Lex.toLex_le_toLex

theorem version_mono {a b : VersionedEvidence} (h : a ≤ b) : a.version ≤ b.version := by
  rcases (evidence_le_iff a b).mp h with h | ⟨h, -⟩
  · exact h.le
  · exact h.le

theorem joinVersioned_evidence {T : Type} (evidence : T → VersionedEvidence) (a b : T)
    (conflict : VersionedEvidence → VersionedEvidence → FloorConflict) :
    evidence (joinVersioned evidence a b conflict).1 = evidence a ⊔ evidence b := by
  unfold joinVersioned
  split_ifs with hv hlt hh hgt
  · exact (sup_eq_left.mpr ((evidence_le_iff _ _).mpr (Or.inl hlt))).symm
  · exact (sup_eq_right.mpr ((evidence_le_iff _ _).mpr (Or.inl (lt_of_le_of_ne (not_lt.mp hlt) hv)))).symm
  · exact (sup_eq_left.mpr ((evidence_le_iff _ _).mpr (Or.inr ⟨(not_not.mp hv).symm, hh.ge⟩))).symm
  · exact (sup_eq_left.mpr ((evidence_le_iff _ _).mpr (Or.inr ⟨(not_not.mp hv).symm, hgt.le⟩))).symm
  · exact (sup_eq_right.mpr ((evidence_le_iff _ _).mpr (Or.inr ⟨not_not.mp hv, not_lt.mp hgt⟩))).symm

/-- What is known of a variable: the latest value and statement, or the latest deletion. -/
inductive VariableEvidence
  | live (value : WithBot VersionedEvidence) (side : VersionedEvidence)
  | deleted (side : VersionedEvidence)

namespace VariableEvidence

def le : VariableEvidence → VariableEvidence → Prop
  | live v s, live v' s' => v ≤ v' ∧ s ≤ s'
  | live _ _, deleted _ => True
  | deleted _, live _ _ => False
  | deleted s, deleted s' => s ≤ s'

def join : VariableEvidence → VariableEvidence → VariableEvidence
  | live v s, live v' s' => live (v ⊔ v') (s ⊔ s')
  | live _ _, deleted s => deleted s
  | deleted s, live _ _ => deleted s
  | deleted s, deleted s' => deleted (s ⊔ s')

instance : PartialOrder VariableEvidence where
  le := le
  le_refl a := by cases a <;> simp [le]
  le_trans a b c h h' := by
    cases a <;> cases b <;> cases c <;> simp only [le] at h h' ⊢
    · exact ⟨h.1.trans h'.1, h.2.trans h'.2⟩
    · exact h.trans h'
  le_antisymm a b h h' := by
    cases a <;> cases b <;> simp only [le] at h h'
    · rw [le_antisymm h.1 h'.1, le_antisymm h.2 h'.2]
    · rw [le_antisymm h h']

theorem le_join_left (a b : VariableEvidence) : le a (join a b) := by cases a <;> cases b <;> simp [le, join]

theorem le_join_right (a b : VariableEvidence) : le b (join a b) := by cases a <;> cases b <;> simp [le, join]

theorem join_le {a b c : VariableEvidence} (h : le a c) (h' : le b c) : le (join a b) c := by
  cases a <;> cases b <;> cases c <;> simp only [le, join] at h h' ⊢
  · exact ⟨sup_le h.1 h'.1, sup_le h.2 h'.2⟩
  · exact h'
  · exact h
  · exact sup_le h h'

instance : SemilatticeSup VariableEvidence where
  sup := join
  le_sup_left := le_join_left
  le_sup_right := le_join_right
  sup_le _ _ _ h h' := join_le h h'

@[simp] theorem live_sup_live (v v' : WithBot VersionedEvidence) (s s' : VersionedEvidence) :
    live v s ⊔ live v' s' = live (v ⊔ v') (s ⊔ s') := rfl

@[simp] theorem live_sup_deleted (v : WithBot VersionedEvidence) (s s' : VersionedEvidence) :
    live v s ⊔ deleted s' = deleted s' := rfl

@[simp] theorem deleted_sup_live (s s' : VersionedEvidence) (v : WithBot VersionedEvidence) :
    deleted s ⊔ live v s' = deleted s := rfl

@[simp] theorem deleted_sup_deleted (s s' : VersionedEvidence) : deleted s ⊔ deleted s' = deleted (s ⊔ s') := rfl

end VariableEvidence

/-- What is known of an environment. -/
structure EnvironmentEvidence where
  pullEpoch : Natural
  observedEpoch : Natural
  side : WithBot VersionedEvidence
  manifest : WithBot VersionedEvidence
  variableFloors : VariableId → WithBot VariableEvidence

namespace EnvironmentEvidence

@[ext]
theorem ext {a b : EnvironmentEvidence} (hp : a.pullEpoch = b.pullEpoch) (ho : a.observedEpoch = b.observedEpoch)
    (hs : a.side = b.side) (hm : a.manifest = b.manifest) (hv : ∀ id, a.variableFloors id = b.variableFloors id) :
    a = b := by
  cases a
  cases b
  cases hp
  cases ho
  cases hs
  cases hm
  cases funext hv
  rfl

instance : PartialOrder EnvironmentEvidence where
  le a b := a.pullEpoch ≤ b.pullEpoch ∧ a.observedEpoch ≤ b.observedEpoch ∧ a.side ≤ b.side ∧
    a.manifest ≤ b.manifest ∧ ∀ id, a.variableFloors id ≤ b.variableFloors id
  le_refl a := ⟨le_refl _, le_refl _, le_refl _, le_refl _, fun _ => le_refl _⟩
  le_trans a b c h h' := ⟨h.1.trans h'.1, h.2.1.trans h'.2.1, h.2.2.1.trans h'.2.2.1, h.2.2.2.1.trans h'.2.2.2.1,
    fun id => (h.2.2.2.2 id).trans (h'.2.2.2.2 id)⟩
  le_antisymm a b h h' := ext (le_antisymm h.1 h'.1) (le_antisymm h.2.1 h'.2.1) (le_antisymm h.2.2.1 h'.2.2.1)
    (le_antisymm h.2.2.2.1 h'.2.2.2.1) fun id => le_antisymm (h.2.2.2.2 id) (h'.2.2.2.2 id)

instance : SemilatticeSup EnvironmentEvidence where
  sup a b := ⟨a.pullEpoch ⊔ b.pullEpoch, a.observedEpoch ⊔ b.observedEpoch, a.side ⊔ b.side, a.manifest ⊔ b.manifest,
    fun id => a.variableFloors id ⊔ b.variableFloors id⟩
  le_sup_left _ _ := ⟨le_sup_left, le_sup_left, le_sup_left, le_sup_left, fun _ => le_sup_left⟩
  le_sup_right _ _ := ⟨le_sup_right, le_sup_right, le_sup_right, le_sup_right, fun _ => le_sup_right⟩
  sup_le _ _ _ h h' := ⟨sup_le h.1 h'.1, sup_le h.2.1 h'.2.1, sup_le h.2.2.1 h'.2.2.1, sup_le h.2.2.2.1 h'.2.2.2.1,
    fun id => sup_le (h.2.2.2.2 id) (h'.2.2.2.2 id)⟩

end EnvironmentEvidence

/-- What is known of a project. -/
abbrev FloorEvidence := WithBot VersionedEvidence × (EnvironmentId → WithBot EnvironmentEvidence)

/-! ## The evidence of a floor -/

/-- A missing value is the bottom. -/
def asBot {T U : Type} (f : T → U) (value : Option T) : WithBot U := value.elim ⊥ fun t => (f t : WithBot U)

@[simp] theorem asBot_none {T U : Type} (f : T → U) : asBot f none = ⊥ := rfl

@[simp] theorem asBot_some {T U : Type} (f : T → U) (t : T) : asBot f (some t) = (f t : WithBot U) := rfl

def VariableFloor.evidence : VariableFloor → VariableEvidence
  | active value side => .live value.evidence side.evidence
  | declared side => .live ⊥ side.evidence
  | deleted side => .deleted side.evidence

attribute [grind =] VariableFloor.evidence

def EnvironmentFloor.evidence (floor : EnvironmentFloor) : EnvironmentEvidence where
  pullEpoch := floor.pullEpoch
  observedEpoch := floor.observedEpoch
  side := asBot MetaSide.evidence floor.side
  manifest := asBot ManifestFloor.evidence floor.manifest
  variableFloors id := asBot VariableFloor.evidence (floor.variableFloors.get? id)

def FoldState.evidence (state : FoldState) : FloorEvidence :=
  (asBot ChainHeadFloor.evidence state.chainHead, fun id => asBot EnvironmentFloor.evidence (state.environments.get? id))

theorem joinVariableFloor_evidence (environmentId : EnvironmentId) (variableId : VariableId)
    (existing : Option VariableFloor) (incoming : VariableFloor) :
    ((joinVariableFloor environmentId variableId existing incoming).1.evidence : WithBot VariableEvidence) =
      asBot VariableFloor.evidence existing ⊔ incoming.evidence := by
  cases existing with
  | none => simp [joinVariableFloor]
  | some existing =>
    rw [asBot_some, ← WithBot.coe_sup, WithBot.coe_inj]
    cases existing <;> cases incoming <;>
      simp [joinVariableFloor, VariableFloor.evidence, joinMetaSide, joinVersioned_evidence, joinDeletedWithLive]

theorem joinEnvironmentSide_evidence (environmentId : EnvironmentId) (existing incoming : Option MetaSide) :
    asBot MetaSide.evidence (joinEnvironmentSide environmentId existing incoming).1 =
      asBot MetaSide.evidence existing ⊔ asBot MetaSide.evidence incoming := by
  cases existing <;> cases incoming <;> simp [joinEnvironmentSide, joinMetaSide, joinVersioned_evidence]

theorem joinManifestFloor_evidence (environmentId : EnvironmentId) (existing incoming : Option ManifestFloor) :
    asBot ManifestFloor.evidence (joinManifestFloor environmentId existing incoming).1 =
      asBot ManifestFloor.evidence existing ⊔ asBot ManifestFloor.evidence incoming := by
  cases existing <;> cases incoming <;> simp [joinManifestFloor, joinVersioned_evidence]

theorem joinEnvironmentFloor_evidence (environmentId : EnvironmentId) (existing : Option EnvironmentFloor)
    (incoming : EnvironmentFloor) :
    ((joinEnvironmentFloor environmentId existing incoming).1.evidence : WithBot EnvironmentEvidence) =
      asBot EnvironmentFloor.evidence existing ⊔ incoming.evidence := by
  cases existing with
  | none => simp [joinEnvironmentFloor]
  | some existing =>
    rw [asBot_some, ← WithBot.coe_sup, WithBot.coe_inj]
    ext id
    · rfl
    · rfl
    · exact joinEnvironmentSide_evidence _ _ _
    · exact joinManifestFloor_evidence _ _ _
    · change asBot VariableFloor.evidence ((joinVariables _ _ _ _).1.get? id) =
        asBot VariableFloor.evidence (existing.variableFloors.get? id) ⊔
          asBot VariableFloor.evidence (incoming.variableFloors.get? id)
      rw [joinVariables_get? _ _ _ incoming.variableFloors.nodup]
      change asBot _ (((incoming.variableFloors.get? id).map _).or (existing.variableFloors.get? id)) = _
      cases incoming.variableFloors.get? id with
      | none => simp
      | some floor => simp [joinVariableFloor_evidence]

/-! ## Observations -/

/-- What an observation record tells: a chain head and, but for a head record, a floor of one environment. -/
structure Observed where
  head : ChainHeadFloor
  environment : Option (EnvironmentId × EnvironmentFloor)

def observed? : FloorLogRecord → Option Observed
  | .head head => some ⟨head, none⟩
  | .pull head environmentId environment => some ⟨head, some (environmentId, environment)⟩
  | .push head environmentId variableId floor =>
    some ⟨head, some (environmentId,
      { emptyEnvironmentFloor with variableFloors := Record.empty.set variableId floor })⟩
  | .metadata head environmentId observedEpoch side manifest =>
    some ⟨head, some (environmentId,
      { emptyEnvironmentFloor with
        observedEpoch := observedEpoch.toNatural
        side := some side
        manifest := some manifest })⟩
  | .manifest head environmentId manifest =>
    some ⟨head, some (environmentId,
      { emptyEnvironmentFloor with observedEpoch := manifest.epoch.toNatural, manifest := some manifest })⟩
  | .intent _ => none
  | .resolution _ _ => none
  | .snapshot _ _ => none

/-- A record is an observation. -/
def IsObservation (record : FloorLogRecord) : Prop := (observed? record).isSome = true

def observe (state : FoldState) (o : Observed) : FoldState :=
  match o.environment with
  | none => joinHeadInto state o.head
  | some (environmentId, environment) => joinEnvironmentInto (joinHeadInto state o.head) environmentId environment

theorem applyRecord_observed {record : FloorLogRecord} {o : Observed} (h : observed? record = some o)
    (state : FoldState) : applyRecord state record = observe state o := by
  cases record <;> cases h <;> rfl

def Observed.evidence (o : Observed) : FloorEvidence :=
  (o.head.evidence, fun id => match o.environment with
    | none => ⊥
    | some (environmentId, environment) => if id = environmentId then (environment.evidence : WithBot _) else ⊥)

/-- The conflicts that an observation sinks. -/
def sunk (state : FoldState) (o : Observed) : List FloorConflict :=
  (joinChainHead state.chainHead o.head).2 ++
    o.environment.toList.flatMap fun e => (joinEnvironmentFloor e.1 (state.environments.get? e.1) e.2).2

theorem addConflicts_environments (conflicts : List FloorConflict) (state : FoldState) :
    (conflicts.foldl addConflict state).environments = state.environments := by
  induction conflicts generalizing state with
  | nil => rfl
  | cons conflict rest ih =>
    rw [List.foldl_cons, ih]
    unfold addConflict
    split <;> rfl

theorem joinHeadInto_environments (state : FoldState) (head : ChainHeadFloor) :
    (joinHeadInto state head).environments = state.environments := addConflicts_environments _ state

theorem addConflicts_frame (conflicts : List FloorConflict) (state : FoldState) :
    conflicts.foldl addConflict state = { state with conflicts := (conflicts.foldl addConflict state).conflicts } := by
  induction conflicts generalizing state with
  | nil => rfl
  | cons conflict rest ih =>
    rw [List.foldl_cons, ih]
    unfold addConflict
    split <;> rfl

theorem addConflicts_conflicts (conflicts : List FloorConflict) {s t : FoldState} (h : s.conflicts = t.conflicts) :
    (conflicts.foldl addConflict s).conflicts = (conflicts.foldl addConflict t).conflicts := by
  induction conflicts generalizing s t with
  | nil => exact h
  | cons conflict rest ih =>
    apply ih
    unfold addConflict
    rw [h]
    split
    · exact h
    · rfl

theorem observe_conflicts (state : FoldState) (o : Observed) :
    (observe state o).conflicts = ((sunk state o).foldl addConflict state).conflicts := by
  obtain ⟨head, environment⟩ := o
  unfold observe sunk
  cases environment with
  | none => simp [joinHeadInto]
  | some e =>
    dsimp only
    rw [List.foldl_append]
    unfold joinEnvironmentInto
    rw [joinHeadInto_environments]
    simp only [Option.toList_some, List.flatMap_cons, List.flatMap_nil, List.append_nil]
    apply addConflicts_conflicts
    rfl

theorem addConflict_evidence (state : FoldState) (conflict : FloorConflict) :
    (addConflict state conflict).evidence = state.evidence := by
  unfold addConflict
  split <;> rfl

theorem addConflicts_evidence (conflicts : List FloorConflict) (state : FoldState) :
    (conflicts.foldl addConflict state).evidence = state.evidence := by
  induction conflicts generalizing state with
  | nil => rfl
  | cons conflict rest ih => rw [List.foldl_cons, ih, addConflict_evidence]

theorem joinChainHead_evidence (existing : Option ChainHeadFloor) (incoming : ChainHeadFloor) :
    ((joinChainHead existing incoming).1.evidence : WithBot VersionedEvidence) =
      asBot ChainHeadFloor.evidence existing ⊔ incoming.evidence := by
  cases existing <;> simp [joinChainHead, joinVersioned_evidence]

theorem joinHeadInto_evidence (state : FoldState) (head : ChainHeadFloor) :
    (joinHeadInto state head).evidence = state.evidence ⊔ ((head.evidence : WithBot VersionedEvidence), ⊥) := by
  have hconflicts := congrArg Prod.snd (addConflicts_evidence (joinChainHead state.chainHead head).2 state)
  refine Prod.ext ?_ ?_
  · exact joinChainHead_evidence state.chainHead head
  · rw [Prod.snd_sup, sup_bot_eq]
    exact hconflicts

theorem joinEnvironmentInto_evidence (state : FoldState) (environmentId : EnvironmentId) (incoming : EnvironmentFloor) :
    (joinEnvironmentInto state environmentId incoming).evidence = state.evidence ⊔
      (⊥, fun id => if id = environmentId then (incoming.evidence : WithBot EnvironmentEvidence) else ⊥) := by
  have hconflicts := congrArg Prod.fst (addConflicts_evidence
    (joinEnvironmentFloor environmentId (state.environments.get? environmentId) incoming).2 state)
  refine Prod.ext ?_ (funext fun id => ?_)
  · rw [Prod.fst_sup, sup_bot_eq]
    exact hconflicts
  · change asBot EnvironmentFloor.evidence ((state.environments.set environmentId _).get? id) =
      asBot EnvironmentFloor.evidence (state.environments.get? id) ⊔ _
    rw [OrderedMap.get?_set]
    by_cases hid : id = environmentId
    · simp [hid, joinEnvironmentFloor_evidence]
    · simp [hid]

theorem observe_evidence (state : FoldState) (o : Observed) : (observe state o).evidence = state.evidence ⊔ o.evidence := by
  obtain ⟨head, environment⟩ := o
  unfold observe Observed.evidence
  cases environment with
  | none =>
    rw [joinHeadInto_evidence]
    rfl
  | some e =>
    dsimp only
    rw [joinEnvironmentInto_evidence, joinHeadInto_evidence, sup_assoc]
    simp

theorem foldl_observe_evidence (observations : List Observed) :
    (observations.foldl observe emptyState).evidence = joined (observations.map Observed.evidence) := by
  induction observations using List.reverseRecOn with
  | nil => rfl
  | append_singleton observations o ih =>
    rw [List.foldl_append, List.foldl_cons, List.foldl_nil, observe_evidence, ih, List.map_append, List.map_singleton,
      joined_snoc]

theorem foldl_applyRecord {records : List FloorLogRecord} (h : ∀ record ∈ records, IsObservation record)
    (state : FoldState) : records.foldl applyRecord state = (records.filterMap observed?).foldl observe state := by
  induction records generalizing state with
  | nil => rfl
  | cons record rest ih =>
    obtain ⟨o, ho⟩ := Option.isSome_iff_exists.mp (h record (by simp))
    rw [List.foldl_cons, List.filterMap_cons, ho, List.foldl_cons, applyRecord_observed ho,
      ih fun r hr => h r (by simp [hr])]

/-- The line a client appends for a record. -/
def recordLine (record : FloorLogRecord) : LogLine := .text (some (logRecordJson record))

theorem recordsOf_lines (records : List FloorLogRecord) : recordsOf (records.map recordLine) = records := by
  induction records with
  | nil => rfl
  | cons record rest ih =>
    unfold recordsOf at ih ⊢
    rw [List.map_cons, List.filterMap_cons]
    simp only [recordLine, decodeLine, Option.bind_some, decodeLogRecord_json]
    exact congrArg (record :: ·) ih

/-- The floor that the lines of these records fold to. -/
def foldOf (records : List FloorLogRecord) : ProjectFloor := (foldRecords (records.map recordLine)).floor

theorem foldOf_eq {records : List FloorLogRecord} (h : ∀ record ∈ records, IsObservation record) :
    foldOf records = ((records.filterMap observed?).foldl observe emptyState).floor := by
  have hnone : ∀ folded state, FloorLogRecord.snapshot folded state ∉ records := by
    intro folded state hmem
    have := h _ hmem
    cases this
  unfold foldOf
  rw [floor_foldRecords, recordsOf_lines, foldState_of_no_snapshot hnone, foldl_applyRecord h]

end Maruhi.Floor
