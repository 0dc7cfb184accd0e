import Maruhi.Floor.Check

/-!
# Accepted pulls

What the checks of a pull ask, in terms of the floor that the pull establishes.
-/

open Text

namespace Maruhi.Floor

/-! ## What follows a version -/

/-- A version no lower, and the same hash at the same version. -/
def Advances (known next : VersionedEvidence) : Prop :=
  known.version ≤ next.version ∧ (known.version = next.version → known.hashHex = next.hashHex)

theorem Advances.refl (a : VersionedEvidence) : Advances a a := ⟨le_refl _, fun _ => rfl⟩

theorem Advances.trans {a b c : VersionedEvidence} (h : Advances a b) (h' : Advances b c) : Advances a c := by
  refine ⟨h.1.trans h'.1, fun hv => ?_⟩
  have hab : a.version = b.version := le_antisymm h.1 (hv ▸ h'.1)
  rw [h.2 hab, h'.2 (hab.symm.trans hv)]

theorem Advances.eq {a b : VersionedEvidence} (h : Advances a b) (hv : a.version = b.version) : a = b := by
  cases a
  cases b
  exact congrArg₂ _ hv (h.2 hv)

theorem joinVersioned_advances {T : Type} {evidence : T → VersionedEvidence} {a b : T}
    (conflict : VersionedEvidence → VersionedEvidence → FloorConflict) (h : Advances (evidence a) (evidence b))
    (hinj : evidence a = evidence b → a = b) : joinVersioned evidence a b conflict = (b, []) := by
  unfold joinVersioned
  by_cases hv : (evidence a).version = (evidence b).version
  · rw [hinj (h.eq hv)]
    simp
  · simp [hv, not_lt.mpr h.1]

/-- A variable's floor that an accepted pull can put in the place of another. -/
def Follows : VariableFloor → VariableFloor → Prop
  | .active u s, .active v t =>
    Advances u.evidence v.evidence ∧ (u.version < v.version → u.epoch ≤ v.epoch) ∧ Advances s.evidence t.evidence
  | .active _ s, .deleted t => Advances s.evidence t.evidence
  | .declared s, .active _ t => Advances s.evidence t.evidence
  | .declared s, .declared t => Advances s.evidence t.evidence
  | .declared s, .deleted t => Advances s.evidence t.evidence
  | .deleted s, .deleted t => s = t
  | _, _ => False

/-- What the check asks of the floor that a pull establishes. -/
structure Accepts (floor incoming : EnvironmentFloor) : Prop where
  side : ∀ s t, floor.side = some s → incoming.side = some t → Advances s.evidence t.evidence
  followed : ∀ id f, floor.variableFloors.get? id = some f → ∃ g, incoming.variableFloors.get? id = some g ∧ Follows f g
  manifest : ∀ m n, floor.manifest = some m → incoming.manifest = some n → Advances m.evidence n.evidence
  manifestEpoch : ∀ n, incoming.manifest = some n → (∀ m, floor.manifest = some m → m.manifestVersion < n.manifestVersion) →
    manifestBaseline floor ≤ n.epoch.toNatural
  valueEpoch : ∀ id v t, incoming.variableFloors.get? id = some (.active v t) →
    (∀ u s, floor.variableFloors.get? id = some (.active u s) → u.version < v.version) →
    floor.pullEpoch ≤ v.epoch.toNatural

/-! ## Each check, as a condition -/

@[simp] theorem toNatural_lt (a b : PositiveInt) : a.toNatural < b.toNatural ↔ a < b := Iff.rfl

@[simp] theorem toNatural_le (a b : PositiveInt) : a.toNatural ≤ b.toNatural ↔ a ≤ b := Iff.rfl

@[simp] theorem toNatural_inj (a b : PositiveInt) : a.toNatural = b.toNatural ↔ a = b := by
  rw [Subtype.ext_iff, Subtype.ext_iff]
  rfl

theorem toNatural_pos (a : PositiveInt) : (0 : Natural) < a.toNatural := a.2.1

theorem advances_iff (known next : PositiveInt) (hash nextHash : HashHex) :
    Advances ⟨known.toNatural, hash.1⟩ ⟨next.toNatural, nextHash.1⟩ ↔
      ¬ next < known ∧ ¬ (next = known ∧ nextHash ≠ hash) := by
  change known.toNatural ≤ next.toNatural ∧ (known.toNatural = next.toNatural → hash.1 = nextHash.1) ↔ _
  rw [toNatural_le, toNatural_inj, not_lt, not_and_not_right, ← Subtype.ext_iff, eq_comm, eq_comm (a := hash)]

theorem refusal_eq_none {α : Type} {p : Prop} [Decidable p] (violation : α) (rest : Option α) :
    (if p then some violation else rest) = none ↔ ¬ p ∧ rest = none := by
  split_ifs with h <;> simp [h]

theorem checkMetaAgainstFloor_eq_none (variableId : Option VariableId) (side : MetaSide) (pulled : VerifiedMetaEvidence) :
    checkMetaAgainstFloor variableId side.floorMeta pulled = none ↔ Advances side.evidence pulled.side.evidence := by
  unfold checkMetaAgainstFloor MetaSide.evidence VerifiedMetaEvidence.side MetaSide.floorMeta
  rw [refusal_eq_none, refusal_eq_none, advances_iff, toNatural_lt, toNatural_inj, ne_eq, ← Subtype.ext_iff]
  simp

theorem checkEnvironmentMeta_eq_none (floor : EnvironmentFloor) (pulled : VerifiedMetaEvidence) :
    checkMetaAgainstFloor none floor.floorMeta pulled = none ↔
      ∀ s, floor.side = some s → Advances s.evidence pulled.side.evidence := by
  unfold EnvironmentFloor.floorMeta
  cases floor.side with
  | none =>
    -- a verified statement has a version of at least 1
    have hpos := toNatural_pos pulled.metaVersion
    simp [checkMetaAgainstFloor, hpos.ne', hpos.le]
  | some s => simp [checkMetaAgainstFloor_eq_none]

theorem checkManifestAgainstFloor_eq_none (floor : EnvironmentFloor) (manifest : VerifiedManifest) :
    checkManifestAgainstFloor floor manifest = none ↔
      ∀ m, floor.manifest = some m → Advances m.evidence manifest.floor.evidence := by
  unfold checkManifestAgainstFloor ManifestFloor.evidence VerifiedManifest.floor
  cases floor.manifest with
  | none => simp
  | some m => simp [refusal_eq_none, advances_iff]

theorem checkManifestEpochBaseline_eq_none (floor : EnvironmentFloor) (manifest : VerifiedManifest) :
    checkManifestEpochBaseline floor manifest = none ↔
      ((∀ m, floor.manifest = some m → m.manifestVersion < manifest.manifestVersion) →
        manifestBaseline floor ≤ manifest.epoch.toNatural) := by
  have hnewer : (floor.manifest.elim 0 fun m => m.manifestVersion.toNatural) < manifest.manifestVersion.toNatural ↔
      ∀ m, floor.manifest = some m → m.manifestVersion < manifest.manifestVersion := by
    cases floor.manifest with
    | none => simp [toNatural_pos]
    | some m => simp
  unfold checkManifestEpochBaseline
  dsimp only
  rw [refusal_eq_none, ← hnewer]
  simp

theorem checkStaleEpoch_eq_none (floor : EnvironmentFloor) (value : VerifiedPulledValue) :
    checkStaleEpoch floor value = none ↔
      ((∀ u s, floor.variableFloors.get? value.variableId = some (.active u s) → u.version < value.version) →
        floor.pullEpoch ≤ value.epoch.toNatural) := by
  unfold checkStaleEpoch
  rcases floor.variableFloors.get? value.variableId with _ | (⟨u, s⟩ | s | s) <;> simp [toNatural_pos]

theorem checkActiveVariable_eq_none (floor : ActiveVariableFloor) (value : VerifiedPulledValue) :
    checkActiveVariable floor value = none ↔ Follows floor.toFloor value.floor := by
  unfold checkActiveVariable
  rw [refusal_eq_none, refusal_eq_none, refusal_eq_none, checkMetaAgainstFloor_eq_none, ← and_assoc, ← advances_iff]
  change _ ↔ Advances floor.value.evidence ⟨value.version.toNatural, value.signedBytesHashHex.1⟩ ∧ _ ∧ _
  rw [not_and, not_lt]
  rfl

/-! ## A well-formed pull -/

/-- No id occurs twice among the values, the declared statements and the tombstones. -/
def VerifiedPullSnapshot.Distinct (snapshot : VerifiedPullSnapshot) : Prop := (snapshot.floors.map Prod.fst).Nodup

theorem get?_ofEntries {V : Type} {l : List (VariableId × V)} (h : (l.map Prod.fst).Nodup) (id : VariableId) :
    (Record.ofEntries l).get? id = l.lookup id :=
  Record.get?_fromEntries (⟨l, h⟩ : OrderedMap VariableId V) id

theorem lookup_eq_none_of_nodup {V W : Type} {l : List (VariableId × V)} {l' : List (VariableId × W)}
    (h : (l.map Prod.fst ++ l'.map Prod.fst).Nodup) {id : VariableId} {v : V} (hv : l.lookup id = some v) :
    l'.lookup id = none := by
  rw [← Option.not_isSome_iff_eq_none, lookup_isSome_iff]
  intro hmem
  refine (List.nodup_append.mp h).2.2 id ?_ id hmem rfl
  rw [← lookup_isSome_iff, hv]
  rfl

def actives (snapshot : VerifiedPullSnapshot) : List (VariableId × VerifiedPulledValue) :=
  snapshot.values.map fun value => (value.variableId, value)

def declareds (snapshot : VerifiedPullSnapshot) : List (VariableId × VerifiedVariableStatement) :=
  snapshot.declared.map fun statement => (statement.variableId, statement)

def tombs (snapshot : VerifiedPullSnapshot) : List (VariableId × VerifiedTombstone) :=
  snapshot.tombstones.map fun tombstone => (tombstone.variableId, tombstone)

def declaredFloor (statement : VerifiedVariableStatement) : VariableFloor := .declared statement.side

def deletedFloor (tombstone : VerifiedTombstone) : VariableFloor := .deleted tombstone.side

theorem floors_eq (snapshot : VerifiedPullSnapshot) : snapshot.floors =
    (actives snapshot).map (fun e => (e.1, e.2.floor)) ++ (declareds snapshot).map (fun e => (e.1, declaredFloor e.2)) ++
      (tombs snapshot).map fun e => (e.1, deletedFloor e.2) := by
  simp only [VerifiedPullSnapshot.floors, actives, declareds, tombs, List.map_map]
  rfl

theorem lookup_floors (snapshot : VerifiedPullSnapshot) (id : VariableId) : snapshot.floors.lookup id =
    ((((actives snapshot).lookup id).map VerifiedPulledValue.floor).or
      (((declareds snapshot).lookup id).map declaredFloor)).or (((tombs snapshot).lookup id).map deletedFloor) := by
  rw [floors_eq, List.lookup_append, List.lookup_append, lookup_map_snd, lookup_map_snd, lookup_map_snd]

theorem mem_floors_value {snapshot : VerifiedPullSnapshot} {id : VariableId} {v : ValueSide} {t : MetaSide} (hm : (id, .active v t) ∈ snapshot.floors) :
    ∃ value ∈ snapshot.values, value.variableId = id ∧ value.floor = .active v t := by
  simpa [VerifiedPullSnapshot.floors] using hm

section Distinct
variable {snapshot : VerifiedPullSnapshot} (h : snapshot.Distinct)

include h

theorem distinct_split : ((actives snapshot).map Prod.fst ++ (declareds snapshot).map Prod.fst ++
    (tombs snapshot).map Prod.fst).Nodup := by
  unfold VerifiedPullSnapshot.Distinct at h
  rw [floors_eq] at h
  simpa [Function.comp_def] using h

theorem tombs_of_declared {id : VariableId} {statement : VerifiedVariableStatement}
    (hs : (declareds snapshot).lookup id = some statement) : (tombs snapshot).lookup id = none := by
  have hn := distinct_split h
  rw [List.append_assoc] at hn
  exact lookup_eq_none_of_nodup (List.nodup_append.mp hn).2.1 hs

theorem get?_buildEnvironmentFloor (epoch : Natural) (id : VariableId) :
    (buildEnvironmentFloor epoch snapshot).variableFloors.get? id = snapshot.floors.lookup id := get?_ofEntries h id

theorem actives_nodup : ((actives snapshot).map Prod.fst).Nodup :=
  (List.nodup_append.mp (List.nodup_append.mp (distinct_split h)).1).1

theorem declareds_nodup : ((declareds snapshot).map Prod.fst).Nodup :=
  (List.nodup_append.mp (List.nodup_append.mp (distinct_split h)).1).2.1

theorem tombs_nodup : ((tombs snapshot).map Prod.fst).Nodup := (List.nodup_append.mp (distinct_split h)).2.1

theorem mem_floors (epoch : Natural) (e : VariableId × VariableFloor) :
    (buildEnvironmentFloor epoch snapshot).variableFloors.get? e.1 = some e.2 ↔ e ∈ snapshot.floors := by
  rw [get?_buildEnvironmentFloor h, lookup_eq_some_iff_mem _ _ _ h]

theorem checkVariableFloor_eq_none (id : VariableId) (f : VariableFloor) :
    checkVariableFloor metaEvidenceOf checkFloorActive (OrderedMap.ofEntries (actives snapshot))
        (OrderedMap.ofEntries (declareds snapshot)) (OrderedMap.ofEntries (tombs snapshot)) (id, f) = none ↔
      ∃ g, snapshot.floors.lookup id = some g ∧ Follows f g := by
  have hactive : (OrderedMap.ofEntries (actives snapshot)).get? id = (actives snapshot).lookup id := by
    unfold OrderedMap.get?
    rw [OrderedMap.entries_ofEntries (actives_nodup h)]
  have hdeclared : (OrderedMap.ofEntries (declareds snapshot)).get? id = (declareds snapshot).lookup id := by
    unfold OrderedMap.get?
    rw [OrderedMap.entries_ofEntries (declareds_nodup h)]
  have htombs : (OrderedMap.ofEntries (tombs snapshot)).get? id = (tombs snapshot).lookup id := by
    unfold OrderedMap.get?
    rw [OrderedMap.entries_ofEntries (tombs_nodup h)]
  have hdisjoint := fun statement => @tombs_of_declared _ h id statement
  unfold checkVariableFloor checkVariableFloor.statementOf
  rw [hactive, hdeclared, htombs, lookup_floors]
  generalize (actives snapshot).lookup id = active at *
  generalize (declareds snapshot).lookup id = statement at *
  generalize (tombs snapshot).lookup id = tombstone at *
  cases active with
  | some value =>
    have hchecked := checkActiveVariable_eq_none
    cases f with
    | active u s => simpa [checkFloorActive, ActiveVariableFloor.toFloor] using hchecked ⟨u, s⟩ value
    | declared s =>
      simp only [checkFloorDeclared, Option.some_or, checkMetaAgainstFloor_eq_none, Option.map_some, Option.some.injEq,
        exists_eq_left']
      rfl
    | deleted s => simp [checkFloorDeleted, VerifiedPulledValue.floor, Follows]
  | none =>
    cases statement with
    | some statement =>
      rw [hdisjoint statement rfl]
      cases f with
      | active u s => simp [checkFloorActive, checkFloorActiveMeta, declaredFloor, Follows]
      | declared s => simp [checkFloorDeclared, checkMetaAgainstFloor_eq_none, declaredFloor, Follows]
      | deleted s => simp [checkFloorDeleted, declaredFloor, Follows]
    | none =>
      cases tombstone with
      | some tombstone =>
        cases f with
        | active u s =>
          simp [checkFloorActive, checkFloorActiveMeta, checkMetaAgainstFloor_eq_none, deletedFloor, Follows]
        | declared s => simp [checkFloorDeclared, checkMetaAgainstFloor_eq_none, deletedFloor, Follows]
        | deleted s =>
          obtain ⟨version, hash⟩ := s
          change ite _ _ _ = none ↔ _
          rw [refusal_eq_none, not_or, not_ne_iff, not_ne_iff]
          simp [deletedFloor, Follows, VerifiedMetaEvidence.side, eq_comm]
      | none => cases f <;> simp [checkFloorActive, checkFloorActiveMeta, checkFloorDeclared, checkFloorDeleted]

theorem checkEnvironmentPull_eq_none (floor : EnvironmentFloor) (epoch : Natural) :
    checkEnvironmentPull (some floor) snapshot = none ↔ Accepts floor (buildEnvironmentFloor epoch snapshot) := by
  have hloop : floor.variableFloors.entries.findSome? (checkVariableFloor metaEvidenceOf checkFloorActive
      (OrderedMap.ofEntries (actives snapshot)) (OrderedMap.ofEntries (declareds snapshot))
      (OrderedMap.ofEntries (tombs snapshot))) = none ↔
        ∀ id f, floor.variableFloors.get? id = some f → ∃ g, snapshot.floors.lookup id = some g ∧ Follows f g := by
    rw [List.findSome?_eq_none_iff]
    constructor
    · exact fun hall id f hf => (checkVariableFloor_eq_none h id f).mp (hall (id, f) ((Record.mem_entries _ _ _).mpr hf))
    · exact fun hall e he => (checkVariableFloor_eq_none h e.1 e.2).mpr (hall e.1 e.2 ((Record.mem_entries _ _ _).mp he))
  have hvalues : snapshot.values.findSome? (checkStaleEpoch floor) = none ↔
      ∀ id v t, snapshot.floors.lookup id = some (.active v t) →
        (∀ u s, floor.variableFloors.get? id = some (.active u s) → u.version < v.version) →
          floor.pullEpoch ≤ v.epoch.toNatural := by
    rw [List.findSome?_eq_none_iff]
    constructor
    · intro hall id v t hlookup hnewer
      obtain ⟨value, hvalue, rfl, hfloor⟩ := mem_floors_value ((lookup_eq_some_iff_mem _ _ _ h).mp hlookup)
      cases hfloor
      exact (checkStaleEpoch_eq_none floor value).mp (hall value hvalue) hnewer
    · intro hall value hvalue
      apply (checkStaleEpoch_eq_none floor value).mpr
      apply hall value.variableId ⟨value.version, value.epoch, value.signedBytesHashHex⟩
      apply (lookup_eq_some_iff_mem _ _ _ h).mpr
      unfold VerifiedPullSnapshot.floors
      exact List.mem_append_left _ (List.mem_append_left _ (List.mem_map.mpr ⟨value, hvalue, rfl⟩))
  unfold checkEnvironmentPull checkFloorCommon
  dsimp only
  change ((Option.or _ (List.findSome? (checkVariableFloor metaEvidenceOf checkFloorActive
    (OrderedMap.ofEntries (actives snapshot)) (OrderedMap.ofEntries (declareds snapshot))
    (OrderedMap.ofEntries (tombs snapshot))) _)).or _) = none ↔ _
  simp only [Option.or_eq_none_iff, hloop, hvalues, checkEnvironmentMeta_eq_none, checkManifestAgainstFloor_eq_none,
    checkManifestEpochBaseline_eq_none]
  constructor
  · rintro ⟨⟨hside, hfollowed⟩, ⟨hmanifest, hepoch⟩, hvalue⟩
    refine ⟨fun s t hs ht => ?_, ?_, fun m n hm hn => ?_, fun n hn => ?_, ?_⟩
    · cases ht
      exact hside s hs
    · simpa only [get?_buildEnvironmentFloor h] using hfollowed
    · cases hn
      exact hmanifest m hm
    · cases hn
      exact hepoch
    · simpa only [get?_buildEnvironmentFloor h] using hvalue
  · rintro ⟨hside, hfollowed, hmanifest, hepoch, hvalue⟩
    simp only [get?_buildEnvironmentFloor h] at hfollowed hvalue
    exact ⟨⟨fun s hs => hside s _ hs rfl, hfollowed⟩, ⟨fun m hm => hmanifest m _ hm rfl, hepoch _ rfl⟩, hvalue⟩

end Distinct

end Maruhi.Floor
