import Maruhi.Floor.Pulls

/-!
# The life cycle of a variable, in both shapes of a pull

A value-bearing pull lists its declared statements apart, a metadata-only pull among the others. Both pass one skeleton.
-/

open Text

namespace Maruhi.Floor

/-- How a pull serves a variable. -/
structure Served where
  status : VariableStatus
  side : MetaSide
  deriving DecidableEq

def VariableFloor.served : VariableFloor → Served
  | .active _ side => ⟨.active, side⟩
  | .declared side => ⟨.declared, side⟩
  | .deleted side => ⟨.deleted, side⟩

def VerifiedMetaEvidence.served (evidence : VerifiedMetaEvidence) : Served := ⟨evidence.status, evidence.side⟩

def VerifiedPullSnapshot.served (snapshot : VerifiedPullSnapshot) : List (VariableId × Served) :=
  snapshot.floors.map fun e => (e.1, e.2.served)

def VerifiedMetadataSnapshot.served (snapshot : VerifiedMetadataSnapshot) : List (VariableId × Served) :=
  (snapshot.statements.map fun statement => (statement.variableId, statement.served)) ++
    snapshot.tombstones.map fun tombstone => (tombstone.variableId, tombstone.served)

/-- No id occurs twice among the statements and the tombstones. -/
def VerifiedMetadataSnapshot.Distinct (snapshot : VerifiedMetadataSnapshot) : Prop := (snapshot.served.map Prod.fst).Nodup

/-- What the life cycle lets follow: no active variable is declared again, and a deletion is final. -/
def Lawful : VariableFloor → Served → Prop
  | .active _ _, served => served.status ≠ .declared
  | .declared _, _ => True
  | .deleted side, served => served = ⟨.deleted, side⟩

/-- Every variable of the floor is served, as the life cycle allows. -/
def KeepsLifeCycle (floor : EnvironmentFloor) (served : List (VariableId × Served)) : Prop :=
  ∀ id f, floor.variableFloors.get? id = some f → ∃ s, served.lookup id = some s ∧ Lawful f s

/-! ## The metadata-only check, variable by variable -/

/-- What the meta level asks of the statement that is served. -/
def MetaFollows : VariableFloor → Served → Prop
  | .active _ side, served => Advances side.evidence served.side.evidence
  | .declared side, served => Advances side.evidence served.side.evidence
  | .deleted side, served => served = ⟨.deleted, side⟩

/-- No statement declares a variable that the floor records as active. -/
def Undeclared (floor : EnvironmentFloor) (statements : List VerifiedVariableStatement) : Prop :=
  ∀ statement ∈ statements, statement.status = .declared →
    ∀ value side, floor.variableFloors.get? statement.variableId ≠ some (.active value side)

def statementsOf (snapshot : VerifiedMetadataSnapshot) : List (VariableId × VerifiedVariableStatement) :=
  snapshot.statements.map fun statement => (statement.variableId, statement)

def tombstonesOf (snapshot : VerifiedMetadataSnapshot) : List (VariableId × VerifiedTombstone) :=
  snapshot.tombstones.map fun tombstone => (tombstone.variableId, tombstone)

def servedStatement (statement : VerifiedVariableStatement) : Served := statement.toVerifiedMetaEvidence.served

def servedTombstone (tombstone : VerifiedTombstone) : Served := tombstone.toVerifiedMetaEvidence.served

theorem metadata_served_eq (snapshot : VerifiedMetadataSnapshot) : snapshot.served =
    (statementsOf snapshot).map (fun e => (e.1, servedStatement e.2)) ++
      (tombstonesOf snapshot).map fun e => (e.1, servedTombstone e.2) := by
  simp only [VerifiedMetadataSnapshot.served, statementsOf, tombstonesOf, List.map_map]
  rfl

theorem lookup_metadata_served (snapshot : VerifiedMetadataSnapshot) (id : VariableId) : snapshot.served.lookup id =
    (((statementsOf snapshot).lookup id).map servedStatement).or
      (((tombstonesOf snapshot).lookup id).map servedTombstone) := by
  rw [metadata_served_eq, List.lookup_append, lookup_map_snd, lookup_map_snd]

section Metadata
variable {snapshot : VerifiedMetadataSnapshot} (h : snapshot.Distinct)

include h

theorem metadata_nodup :
    ((statementsOf snapshot).map Prod.fst ++ (tombstonesOf snapshot).map Prod.fst).Nodup := by
  unfold VerifiedMetadataSnapshot.Distinct at h
  rw [metadata_served_eq] at h
  simpa [Function.comp_def] using h

theorem checkMetadataFloor_eq_none (id : VariableId) (f : VariableFloor) :
    checkVariableFloor VerifiedVariableStatement.toVerifiedMetaEvidence
        (fun id known active tombstone =>
          checkFloorActiveMeta id known (active.map VerifiedVariableStatement.toVerifiedMetaEvidence) tombstone)
        (OrderedMap.ofEntries (statementsOf snapshot)) (OrderedMap.ofEntries [])
        (OrderedMap.ofEntries (tombstonesOf snapshot)) (id, f) = none ↔
      ∃ s, snapshot.served.lookup id = some s ∧ MetaFollows f s := by
  have hnodup := List.nodup_append.mp (metadata_nodup h)
  have hstatements : (OrderedMap.ofEntries (statementsOf snapshot)).get? id = (statementsOf snapshot).lookup id := by
    unfold OrderedMap.get?
    rw [OrderedMap.entries_ofEntries hnodup.1]
  have htombstones : (OrderedMap.ofEntries (tombstonesOf snapshot)).get? id = (tombstonesOf snapshot).lookup id := by
    unfold OrderedMap.get?
    rw [OrderedMap.entries_ofEntries hnodup.2.1]
  have hnone : (OrderedMap.ofEntries ([] : List (VariableId × VerifiedVariableStatement))).get? id = none := rfl
  unfold checkVariableFloor checkVariableFloor.statementOf
  rw [hstatements, htombstones, hnone, lookup_metadata_served]
  generalize (statementsOf snapshot).lookup id = statement
  generalize (tombstonesOf snapshot).lookup id = tombstone
  cases statement with
  | some statement =>
    have hlive := statement.live
    cases f with
    | active u s => simp [checkFloorActiveMeta, checkMetaAgainstFloor_eq_none, MetaFollows, servedStatement, VerifiedMetaEvidence.served]
    | declared s => simp [checkFloorDeclared, checkMetaAgainstFloor_eq_none, MetaFollows, servedStatement, VerifiedMetaEvidence.served]
    | deleted s => simp [checkFloorDeleted, MetaFollows, servedStatement, VerifiedMetaEvidence.served, hlive]
  | none =>
    cases tombstone with
    | none => cases f <;> simp [checkFloorActiveMeta, checkFloorDeclared, checkFloorDeleted]
    | some tombstone =>
      have hdeleted := tombstone.deleted
      cases f with
      | active u s => simp [checkFloorActiveMeta, checkMetaAgainstFloor_eq_none, MetaFollows, servedTombstone, VerifiedMetaEvidence.served]
      | declared s => simp [checkFloorDeclared, checkMetaAgainstFloor_eq_none, MetaFollows, servedTombstone, VerifiedMetaEvidence.served]
      | deleted s =>
        obtain ⟨version, hash⟩ := s
        change ite _ _ _ = none ↔ _
        rw [refusal_eq_none, not_or, not_ne_iff, not_ne_iff]
        simp [MetaFollows, servedTombstone, VerifiedMetaEvidence.served, VerifiedMetaEvidence.side, hdeleted]

theorem checkEnvironmentMetadataPull_eq_none (floor : EnvironmentFloor) :
    checkEnvironmentMetadataPull (some floor) snapshot = none ↔
      (checkMetaAgainstFloor none floor.floorMeta snapshot.environment = none ∧
        ∀ id f, floor.variableFloors.get? id = some f → ∃ s, snapshot.served.lookup id = some s ∧ MetaFollows f s) ∧
      checkManifestAgainstFloor floor snapshot.manifest = none ∧ checkManifestEpochBaseline floor snapshot.manifest = none := by
  unfold checkEnvironmentMetadataPull checkFloorCommon
  dsimp only
  rw [Option.or_eq_none_iff, Option.or_eq_none_iff, Option.or_eq_none_iff, List.findSome?_eq_none_iff]
  refine and_congr_left fun _ => and_congr_right fun _ => ⟨fun hall id f hf => ?_, fun hall e he => ?_⟩
  · exact (checkMetadataFloor_eq_none h id f).mp (hall (id, f) ((Record.mem_entries _ _ _).mpr hf))
  · exact (checkMetadataFloor_eq_none h e.1 e.2).mpr (hall e.1 e.2 ((Record.mem_entries _ _ _).mp he))

theorem served_declared {id : VariableId} {s : Served} (hs : snapshot.served.lookup id = some s)
    (hdeclared : s.status = .declared) :
    ∃ statement ∈ snapshot.statements, statement.variableId = id ∧ statement.status = .declared := by
  have hmem := (lookup_eq_some_iff_mem _ _ _ h).mp hs
  unfold VerifiedMetadataSnapshot.served at hmem
  rcases List.mem_append.mp hmem with hm | hm
  · obtain ⟨statement, hstatement, he⟩ := List.mem_map.mp hm
    cases he
    exact ⟨statement, hstatement, rfl, hdeclared⟩
  · obtain ⟨tombstone, -, he⟩ := List.mem_map.mp hm
    cases he
    have hdeleted := tombstone.deleted
    change tombstone.status = .declared at hdeclared
    rw [hdeleted] at hdeclared
    cases hdeclared

theorem lookup_of_statement {statement : VerifiedVariableStatement} (hm : statement ∈ snapshot.statements) :
    snapshot.served.lookup statement.variableId = some (servedStatement statement) := by
  apply (lookup_eq_some_iff_mem _ _ _ h).mpr
  unfold VerifiedMetadataSnapshot.served
  exact List.mem_append_left _ (List.mem_map.mpr ⟨statement, hm, rfl⟩)

/-- An accepted metadata-only pull keeps the life cycle where it declares no active variable, and only there. -/
theorem metadata_keepsLifeCycle {floor : EnvironmentFloor} (hok : checkEnvironmentMetadataPull (some floor) snapshot = none) :
    KeepsLifeCycle floor snapshot.served ↔ Undeclared floor snapshot.statements := by
  obtain ⟨⟨-, hserved⟩, -⟩ := (checkEnvironmentMetadataPull_eq_none h floor).mp hok
  constructor
  · intro hkeeps statement hm hdeclared value side hf
    obtain ⟨s, hs, hlawful⟩ := hkeeps _ _ hf
    rw [lookup_of_statement h hm] at hs
    cases hs
    exact hlawful hdeclared
  · intro hundeclared id f hf
    obtain ⟨s, hs, hfollows⟩ := hserved id f hf
    refine ⟨s, hs, ?_⟩
    cases f with
    | active value side =>
      intro hdeclared
      obtain ⟨statement, hm, rfl, hstatus⟩ := served_declared h hs hdeclared
      exact hundeclared statement hm hstatus value side hf
    | declared side => trivial
    | deleted side => exact hfollows

end Metadata

/-! ## The value-bearing check -/

/-- What the value level asks, of two floors of one variable. -/
def ValueFollows : VariableFloor → VariableFloor → Prop
  | .active u _, .active v _ => Advances u.evidence v.evidence ∧ (u.version < v.version → u.epoch ≤ v.epoch)
  | _, _ => True

/-- The value level of a pull: each active variable against its floor, and rule (c). -/
def ValuesFollow (floor : EnvironmentFloor) (snapshot : VerifiedPullSnapshot) : Prop :=
  (∀ id f g, floor.variableFloors.get? id = some f → snapshot.floors.lookup id = some g → ValueFollows f g) ∧
    snapshot.values.findSome? (checkStaleEpoch floor) = none

theorem follows_iff (f g : VariableFloor) :
    Follows f g ↔ (MetaFollows f g.served ∧ Lawful f g.served) ∧ ValueFollows f g := by
  have hserved : ∀ {a b : VariableStatus} {s t : MetaSide}, (⟨a, s⟩ : Served) = ⟨b, t⟩ ↔ a = b ∧ s = t := by
    simp
  cases f with
  | active u s => cases g <;> simp [Follows, MetaFollows, Lawful, ValueFollows, VariableFloor.served, and_comm,
      and_left_comm]
  | declared s => cases g <;> simp [Follows, MetaFollows, Lawful, ValueFollows, VariableFloor.served]
  | deleted s => cases g <;> simp [Follows, MetaFollows, Lawful, ValueFollows, VariableFloor.served, eq_comm]

/-- The declared statements of a value-bearing pull are of the status declared. -/
def VerifiedPullSnapshot.DeclaredOnly (snapshot : VerifiedPullSnapshot) : Prop :=
  ∀ statement ∈ snapshot.declared, statement.status = .declared

def VerifiedPulledValue.statement (value : VerifiedPulledValue) : VerifiedVariableStatement :=
  { metaEvidenceOf value with variableId := value.variableId, live := by simp [metaEvidenceOf] }

/-- The same data in the shape of a metadata-only pull. -/
def VerifiedPullSnapshot.metadata (snapshot : VerifiedPullSnapshot) : VerifiedMetadataSnapshot where
  environment := snapshot.environment
  statements := snapshot.values.map VerifiedPulledValue.statement ++ snapshot.declared
  tombstones := snapshot.tombstones
  manifest := snapshot.manifest

theorem metadata_served {snapshot : VerifiedPullSnapshot} (hdeclared : snapshot.DeclaredOnly) :
    snapshot.metadata.served = snapshot.served := by
  have hstatements : snapshot.declared.map (fun statement => (statement.variableId, statement.served)) =
      snapshot.declared.map fun statement => (statement.variableId, (VariableFloor.declared statement.side).served) := by
    apply List.map_congr_left
    intro statement hm
    unfold VerifiedMetaEvidence.served VariableFloor.served
    rw [hdeclared statement hm]
  have htombstones : snapshot.tombstones.map (fun tombstone => (tombstone.variableId, tombstone.served)) =
      snapshot.tombstones.map fun tombstone => (tombstone.variableId, (VariableFloor.deleted tombstone.side).served) := by
    apply List.map_congr_left
    intro tombstone hm
    unfold VerifiedMetaEvidence.served VariableFloor.served
    rw [tombstone.deleted]
  unfold VerifiedMetadataSnapshot.served VerifiedPullSnapshot.metadata VerifiedPullSnapshot.served VerifiedPullSnapshot.floors
  dsimp only
  rw [List.map_append, hstatements, htombstones]
  simp only [List.map_append, List.map_map]
  rfl

theorem lookup_served (snapshot : VerifiedPullSnapshot) (id : VariableId) :
    snapshot.served.lookup id = (snapshot.floors.lookup id).map VariableFloor.served := lookup_map_snd _ _ _

section Values
variable {snapshot : VerifiedPullSnapshot} (h : snapshot.Distinct)

include h

theorem metadata_distinct (hdeclared : snapshot.DeclaredOnly) : snapshot.metadata.Distinct := by
  unfold VerifiedMetadataSnapshot.Distinct
  rw [metadata_served hdeclared]
  unfold VerifiedPullSnapshot.served
  rw [List.map_map]
  exact h

theorem checkEnvironmentPull_eq_none_iff (floor : EnvironmentFloor) :
    checkEnvironmentPull (some floor) snapshot = none ↔
      (checkMetaAgainstFloor none floor.floorMeta snapshot.environment = none ∧
        ∀ id f, floor.variableFloors.get? id = some f → ∃ g, snapshot.floors.lookup id = some g ∧ Follows f g) ∧
      (checkManifestAgainstFloor floor snapshot.manifest = none ∧ checkManifestEpochBaseline floor snapshot.manifest = none) ∧
      snapshot.values.findSome? (checkStaleEpoch floor) = none := by
  unfold checkEnvironmentPull checkFloorCommon
  dsimp only
  rw [Option.or_eq_none_iff, Option.or_eq_none_iff, Option.or_eq_none_iff, Option.or_eq_none_iff,
    List.findSome?_eq_none_iff]
  refine and_congr_left fun _ => and_congr_right fun _ => ⟨fun hall id f hf => ?_, fun hall e he => ?_⟩
  · exact (checkVariableFloor_eq_none h id f).mp (hall (id, f) ((Record.mem_entries _ _ _).mpr hf))
  · exact (checkVariableFloor_eq_none h e.1 e.2).mpr (hall e.1 e.2 ((Record.mem_entries _ _ _).mp he))

theorem pull_keepsLifeCycle {floor : EnvironmentFloor} (hok : checkEnvironmentPull (some floor) snapshot = none) :
    KeepsLifeCycle floor snapshot.served := by
  obtain ⟨⟨-, hfollowed⟩, -⟩ := (checkEnvironmentPull_eq_none_iff h floor).mp hok
  intro id f hf
  obtain ⟨g, hg, hfollows⟩ := hfollowed id f hf
  refine ⟨g.served, ?_, ((follows_iff f g).mp hfollows).1.2⟩
  rw [lookup_served, hg]
  rfl

theorem checkEnvironmentPull_split (hdeclared : snapshot.DeclaredOnly) (floor : EnvironmentFloor) :
    checkEnvironmentPull (some floor) snapshot = none ↔
      (checkEnvironmentMetadataPull (some floor) snapshot.metadata = none ∧ KeepsLifeCycle floor snapshot.metadata.served) ∧
        ValuesFollow floor snapshot := by
  rw [checkEnvironmentPull_eq_none_iff h, checkEnvironmentMetadataPull_eq_none (metadata_distinct h hdeclared),
    metadata_served hdeclared]
  constructor
  · rintro ⟨⟨hmeta, hfollowed⟩, hmanifest, hfresh⟩
    have hsplit : ∀ id f, floor.variableFloors.get? id = some f → ∃ g, snapshot.floors.lookup id = some g ∧
        snapshot.served.lookup id = some g.served ∧ (MetaFollows f g.served ∧ Lawful f g.served) ∧ ValueFollows f g := by
      intro id f hf
      obtain ⟨g, hg, hfollows⟩ := hfollowed id f hf
      refine ⟨g, hg, ?_, (follows_iff f g).mp hfollows⟩
      rw [lookup_served, hg]
      rfl
    refine ⟨⟨⟨⟨hmeta, fun id f hf => ?_⟩, hmanifest⟩, fun id f hf => ?_⟩, fun id f g hf hg => ?_, hfresh⟩
    · obtain ⟨g, -, hs, hfollows, -⟩ := hsplit id f hf
      exact ⟨g.served, hs, hfollows.1⟩
    · obtain ⟨g, -, hs, hfollows, -⟩ := hsplit id f hf
      exact ⟨g.served, hs, hfollows.2⟩
    · obtain ⟨g', hg', -, -, hvalue⟩ := hsplit id f hf
      rw [hg] at hg'
      cases hg'
      exact hvalue
  · rintro ⟨⟨⟨⟨hmeta, hserved⟩, hmanifest⟩, hkeeps⟩, hvalues, hfresh⟩
    refine ⟨⟨hmeta, fun id f hf => ?_⟩, hmanifest, hfresh⟩
    obtain ⟨s, hs, hfollows⟩ := hserved id f hf
    obtain ⟨s', hs', hlawful⟩ := hkeeps id f hf
    rw [hs] at hs'
    cases hs'
    rw [lookup_served] at hs
    obtain ⟨g, hg, rfl⟩ := Option.map_eq_some_iff.mp hs
    exact ⟨g, hg, (follows_iff f g).mpr ⟨⟨hfollows, hlawful⟩, hvalues id f g hf hg⟩⟩

end Values

/-! ## Both shapes -/

/-- A value-bearing pull keeps the life cycle; a metadata-only pull, and its agreement with the other check, where it
declares no variable that the floor records as active. -/
theorem pulls_keep_lifeCycle (floor : EnvironmentFloor) (snapshot : VerifiedPullSnapshot) (h : snapshot.Distinct)
    (hdeclared : snapshot.DeclaredOnly) (pulled : VerifiedMetadataSnapshot) (hpulled : pulled.Distinct) :
    (checkEnvironmentPull (some floor) snapshot = none → KeepsLifeCycle floor snapshot.served) ∧
      (checkEnvironmentMetadataPull (some floor) pulled = none →
        (KeepsLifeCycle floor pulled.served ↔ Undeclared floor pulled.statements)) ∧
      (checkEnvironmentPull (some floor) snapshot = none →
        checkEnvironmentMetadataPull (some floor) snapshot.metadata = none) ∧
      (checkEnvironmentMetadataPull (some floor) snapshot.metadata = none → ValuesFollow floor snapshot →
        (checkEnvironmentPull (some floor) snapshot = none ↔ Undeclared floor snapshot.declared)) := by
  refine ⟨pull_keepsLifeCycle h, metadata_keepsLifeCycle hpulled, fun hok => ?_, fun hok hvalues => ?_⟩
  · exact ((checkEnvironmentPull_split h hdeclared floor).mp hok).1.1
  · have hiff := metadata_keepsLifeCycle (metadata_distinct h hdeclared) hok
    rw [checkEnvironmentPull_split h hdeclared, hiff]
    constructor
    · rintro ⟨⟨-, hundeclared⟩, -⟩ statement hm
      exact hundeclared statement (List.mem_append_right _ hm)
    · refine fun hundeclared => ⟨⟨hok, fun statement hm hstatus => ?_⟩, hvalues⟩
      rcases List.mem_append.mp hm with hm | hm
      · obtain ⟨value, -, rfl⟩ := List.mem_map.mp hm
        cases hstatus
      · exact hundeclared statement hm hstatus

/-! ## An active variable, declared again -/

def activeFloor : EnvironmentFloor := buildEnvironmentFloor examplePull.chainCurrentEpoch examplePull.snapshot

def redeclaration : VerifiedVariableStatement :=
  ⟨exampleStatement .declared two (digitHash 53 (by decide)), exampleId, by decide⟩

def redeclared : VerifiedMetadataSnapshot :=
  ⟨exampleStatement .active one (digitHash 48 digit48_hash), [redeclaration], [], exampleManifest⟩

theorem redeclared_accepted : ¬ ∀ (floor : EnvironmentFloor) (pulled : VerifiedMetadataSnapshot), pulled.Distinct →
    checkEnvironmentMetadataPull (some floor) pulled = none → KeepsLifeCycle floor pulled.served := by
  intro hkeeps
  obtain ⟨s, hs, hlawful⟩ := hkeeps activeFloor redeclared (by unfold VerifiedMetadataSnapshot.Distinct; decide) (by decide)
    exampleId exampleValue.floor (by decide)
  have hserved : redeclared.served.lookup exampleId = some (servedStatement redeclaration) := by decide
  rw [hserved] at hs
  cases hs
  exact hlawful rfl

theorem pulls_keep_lifeCycle_example :
    (checkEnvironmentMetadataPull (some activeFloor) redeclared = none →
      (KeepsLifeCycle activeFloor redeclared.served ↔ Undeclared activeFloor redeclared.statements)) ∧
    checkEnvironmentMetadataPull (some activeFloor) examplePull.snapshot.metadata = none := by
  have hdistinct : examplePull.snapshot.Distinct := by unfold VerifiedPullSnapshot.Distinct; decide
  have hdeclared : examplePull.snapshot.DeclaredOnly := fun statement hm => by cases hm
  have hboth := pulls_keep_lifeCycle activeFloor examplePull.snapshot hdistinct hdeclared redeclared
    (by unfold VerifiedMetadataSnapshot.Distinct; decide)
  exact ⟨hboth.2.1, hboth.2.2.1 (by decide)⟩

end Maruhi.Floor
