import Maruhi.Floor.Lattice

/-!
# The order of observations does not matter

Where a hash determines what was signed, every order of the same observations folds to the same
coordinates. Repeating one changes nothing, and no coordinate ever decreases.
-/

open Text

namespace Maruhi.Floor

/-! ## Observations at their coordinates -/

/-- What a version counts. -/
inductive Coordinate
  | chainHead
  | environmentMeta (environmentId : EnvironmentId)
  | manifest (environmentId : EnvironmentId)
  | value (environmentId : EnvironmentId) (variableId : VariableId)
  | variableMeta (environmentId : EnvironmentId) (variableId : VariableId)
  deriving DecidableEq

inductive VariableStatus
  | active
  | declared
  | deleted
  deriving DecidableEq, Repr

/-- One signed content: its coordinate and hash, and what the hash is to determine. -/
structure Observation where
  coordinate : Coordinate
  hashHex : JsString
  version : Natural
  epoch : Option PositiveInt
  status : Option VariableStatus
  deriving DecidableEq

def manifestObservation (environmentId : EnvironmentId) (manifest : ManifestFloor) : Observation :=
  ⟨.manifest environmentId, manifest.manifestSigHashHex.1, manifest.manifestVersion.toNatural, some manifest.epoch, none⟩

def valueObservation (environmentId : EnvironmentId) (variableId : VariableId) (value : ValueSide) : Observation :=
  ⟨.value environmentId variableId, value.valueSigHashHex.1, value.version.toNatural, some value.epoch, none⟩

def metaObservation (environmentId : EnvironmentId) (variableId : VariableId) (status : VariableStatus)
    (side : MetaSide) : Observation :=
  ⟨.variableMeta environmentId variableId, side.metaSigHashHex.1, side.metaVersion.toNatural, none, some status⟩

def variableObservations (environmentId : EnvironmentId) (variableId : VariableId) : VariableFloor → List Observation
  | .active value side =>
    [valueObservation environmentId variableId value, metaObservation environmentId variableId .active side]
  | .declared side => [metaObservation environmentId variableId .declared side]
  | .deleted side => [metaObservation environmentId variableId .deleted side]

def environmentObservations (environmentId : EnvironmentId) (floor : EnvironmentFloor) : List Observation :=
  (floor.side.toList.map fun side =>
      ⟨.environmentMeta environmentId, side.metaSigHashHex.1, side.metaVersion.toNatural, none, none⟩) ++
    floor.manifest.toList.map (manifestObservation environmentId) ++
    floor.variableFloors.entries.flatMap fun e => variableObservations environmentId e.1 e.2

def Observed.observations (o : Observed) : List Observation :=
  ⟨.chainHead, o.head.hashHex.1, o.head.seq.toNatural, none, none⟩ ::
    o.environment.toList.flatMap fun e => environmentObservations e.1 e.2

def observationsOf (records : List FloorLogRecord) : List Observation :=
  (records.filterMap observed?).flatMap Observed.observations

/-- At each coordinate the hash determines the version, the epoch and the status. -/
def Consistent (records : List FloorLogRecord) : Prop :=
  ∀ o ∈ observationsOf records, ∀ o' ∈ observationsOf records,
    o.coordinate = o'.coordinate → o.hashHex = o'.hashHex → o = o'

/-! ## A floor holds what was observed -/

/-- Every value and every manifest of the state is one of the observations. -/
structure Drawn (observations : List Observation) (state : FoldState) : Prop where
  manifest : ∀ id environment manifest, state.environments.get? id = some environment →
    environment.manifest = some manifest → manifestObservation id manifest ∈ observations
  value : ∀ id environment variableId value side, state.environments.get? id = some environment →
    environment.variableFloors.get? variableId = some (.active value side) →
    valueObservation id variableId value ∈ observations

theorem joinManifestFloor_or {id : EnvironmentId} {existing incoming : Option ManifestFloor} {manifest : ManifestFloor}
    (h : (joinManifestFloor id existing incoming).1 = some manifest) :
    existing = some manifest ∨ incoming = some manifest := by
  cases existing with
  | none => exact Or.inr h
  | some a =>
    cases incoming with
    | none => exact Or.inl h
    | some b =>
      simp only [joinManifestFloor, Option.some.injEq] at h
      rcases joinVersioned_or ManifestFloor.evidence a b (conflictOf .manifest (some id) none) with hj | hj
      · exact Or.inl (congrArg some (hj.symm.trans h))
      · exact Or.inr (congrArg some (hj.symm.trans h))

theorem joinVariableFloor_or {id : EnvironmentId} {variableId : VariableId} {existing : Option VariableFloor}
    {incoming : VariableFloor} {value : ValueSide} {side : MetaSide}
    (h : (joinVariableFloor id variableId existing incoming).1 = .active value side) :
    (∃ side, existing = some (.active value side)) ∨ ∃ side, incoming = .active value side := by
  cases existing with
  | none => exact Or.inr ⟨side, h⟩
  | some existing =>
    cases existing with
    | active u a =>
      cases incoming with
      | active v b =>
        simp only [joinVariableFloor, VariableFloor.active.injEq] at h
        rcases joinVersioned_or ValueSide.evidence u v (conflictOf .value (some id) (some variableId)) with hj | hj
        · exact Or.inl ⟨a, by rw [← h.1, hj]⟩
        · exact Or.inr ⟨b, by rw [← h.1, hj]⟩
      | declared b =>
        simp only [joinVariableFloor, VariableFloor.active.injEq] at h
        exact Or.inl ⟨a, by rw [h.1]⟩
      | deleted b => cases h
    | declared a =>
      cases incoming with
      | active v b =>
        simp only [joinVariableFloor, VariableFloor.active.injEq] at h
        exact Or.inr ⟨b, by rw [h.1]⟩
      | declared b => cases h
      | deleted b => cases h
    | deleted a => cases incoming <;> cases h

theorem mem_environmentObservations_manifest {id : EnvironmentId} {floor : EnvironmentFloor} {manifest : ManifestFloor}
    (h : floor.manifest = some manifest) : manifestObservation id manifest ∈ environmentObservations id floor := by
  simp [environmentObservations, h]

theorem mem_environmentObservations_variable {id : EnvironmentId} {floor : EnvironmentFloor} {variableId : VariableId}
    {variableFloor : VariableFloor} (h : floor.variableFloors.get? variableId = some variableFloor) {o : Observation}
    (ho : o ∈ variableObservations id variableId variableFloor) : o ∈ environmentObservations id floor := by
  unfold environmentObservations
  rw [List.mem_append]
  refine Or.inr (List.mem_flatMap.mpr ⟨(variableId, variableFloor), ?_, ho⟩)
  exact (Record.mem_entries _ _ _).mpr h

theorem Drawn.observe {observations : List Observation} {state : FoldState} (h : Drawn observations state) (o : Observed)
    (ho : ∀ x ∈ o.observations, x ∈ observations) : Drawn observations (Floor.observe state o) := by
  obtain ⟨head, environment⟩ := o
  unfold Floor.observe
  cases environment with
  | none =>
    dsimp only
    exact ⟨fun id e m he => h.1 id e m (joinHeadInto_environments state head ▸ he),
      fun id e v value side he => h.2 id e v value side (joinHeadInto_environments state head ▸ he)⟩
  | some e =>
    obtain ⟨id, incoming⟩ := e
    have hincoming : ∀ x ∈ environmentObservations id incoming, x ∈ observations := fun x hx =>
      ho x (by simp [Observed.observations, hx])
    have hget : ∀ id' environment, (joinEnvironmentInto (joinHeadInto state head) id incoming).environments.get? id' =
        some environment → (id' = id ∧ environment = (joinEnvironmentFloor id (state.environments.get? id) incoming).1) ∨
          state.environments.get? id' = some environment := by
      intro id' environment he
      change ((joinHeadInto state head).environments.set id _).get? id' = some environment at he
      rw [OrderedMap.get?_set, joinHeadInto_environments] at he
      split_ifs at he with hid
      · exact Or.inl ⟨hid, (Option.some.inj he).symm⟩
      · exact Or.inr he
    dsimp only
    refine ⟨fun id' environment manifest he hm => ?_, fun id' environment variableId value side he hv => ?_⟩
    · rcases hget id' environment he with ⟨rfl, rfl⟩ | he
      · cases hex : state.environments.get? id' with
        | none =>
          rw [hex] at hm
          exact hincoming _ (mem_environmentObservations_manifest hm)
        | some existing =>
          rw [hex] at hm
          rcases joinManifestFloor_or hm with hm | hm
          · exact h.1 id' existing manifest hex hm
          · exact hincoming _ (mem_environmentObservations_manifest hm)
      · exact h.1 id' environment manifest he hm
    · rcases hget id' environment he with ⟨rfl, rfl⟩ | he
      · cases hex : state.environments.get? id' with
        | none =>
          rw [hex] at hv
          exact hincoming _ (mem_environmentObservations_variable hv (by simp [variableObservations]))
        | some existing =>
          rw [hex] at hv
          change (joinVariables _ _ _ _).1.get? variableId = _ at hv
          rw [joinVariables_get? _ _ _ incoming.variableFloors.nodup] at hv
          change ((incoming.variableFloors.get? variableId).map _).or _ = _ at hv
          cases hin : incoming.variableFloors.get? variableId with
          | none =>
            rw [hin] at hv
            exact h.2 id' existing variableId value side hex hv
          | some floor =>
            rw [hin] at hv
            rcases joinVariableFloor_or (Option.some.inj hv) with ⟨s, hs⟩ | ⟨s, hs⟩
            · exact h.2 id' existing variableId value s hex hs
            · exact hincoming _ (mem_environmentObservations_variable hin (by simp [hs, variableObservations]))
      · exact h.2 id' environment variableId value side he hv

theorem foldl_observe_drawn (observations : List Observation) (observed : List Observed)
    (h : ∀ o ∈ observed, ∀ x ∈ o.observations, x ∈ observations) :
    Drawn observations (observed.foldl observe emptyState) := by
  induction observed using List.reverseRecOn with
  | nil => exact ⟨fun _ _ _ h => (by cases h), fun _ _ _ _ _ h => (by cases h)⟩
  | append_singleton observed o ih =>
    rw [List.foldl_append]
    exact (ih fun o' ho' => h o' (by simp [ho'])).observe o (h o (by simp))

/-! ## Equal evidence is equal coordinates -/

structure SameEnvironment (a b : EnvironmentFloor) : Prop where
  pullEpoch : a.pullEpoch = b.pullEpoch
  observedEpoch : a.observedEpoch = b.observedEpoch
  side : a.side = b.side
  manifest : a.manifest = b.manifest
  variableFloors : ∀ id, a.variableFloors.get? id = b.variableFloors.get? id

/-- The same floor at every coordinate, whatever the conflicts. -/
structure SameCoordinates (a b : ProjectFloor) : Prop where
  chainHead : a.chainHead = b.chainHead
  environments : ∀ id, Option.Rel SameEnvironment (a.environments.get? id) (b.environments.get? id)

theorem asBot_eq {T U : Type} {f : T → U} {a b : Option T} (h : asBot f a = asBot f b) :
    Option.Rel (fun t u => f t = f u) a b := by
  cases a with
  | none =>
    cases b with
    | none => exact .none
    | some u => cases h
  | some t =>
    cases b with
    | none => cases h
    | some u => exact .some (WithBot.coe_inj.mp h)

theorem rel_eq {T : Type} {R : T → T → Prop} {a b : Option T} (h : Option.Rel R a b)
    (heq : ∀ t u, a = some t → b = some u → R t u → t = u) : a = b := by
  cases h with
  | some hr => exact congrArg some (heq _ _ rfl rfl hr)
  | none => rfl

theorem chainHead_evidence_inj {a b : ChainHeadFloor} (h : a.evidence = b.evidence) : a = b := by
  obtain ⟨⟨n, hn⟩, x⟩ := a
  obtain ⟨⟨m, hm⟩, y⟩ := b
  simp only [ChainHeadFloor.evidence, PositiveInt.toNatural, VersionedEvidence.mk.injEq, Subtype.mk.injEq] at h
  obtain ⟨rfl, hxy⟩ := h
  rw [Subtype.ext hxy]

theorem metaSide_evidence_inj {a b : MetaSide} (h : a.evidence = b.evidence) : a = b := by
  obtain ⟨⟨n, hn⟩, x⟩ := a
  obtain ⟨⟨m, hm⟩, y⟩ := b
  simp only [MetaSide.evidence, PositiveInt.toNatural, VersionedEvidence.mk.injEq, Subtype.mk.injEq] at h
  obtain ⟨rfl, hxy⟩ := h
  rw [Subtype.ext hxy]

section Determined
variable {observations : List Observation}
  (hcons : ∀ o ∈ observations, ∀ o' ∈ observations, o.coordinate = o'.coordinate → o.hashHex = o'.hashHex → o = o')

include hcons

theorem manifest_determined {id : EnvironmentId} {a b : ManifestFloor} (ha : manifestObservation id a ∈ observations)
    (hb : manifestObservation id b ∈ observations) (h : a.evidence = b.evidence) : a = b := by
  have hhash : a.manifestSigHashHex.1 = b.manifestSigHashHex.1 := congrArg VersionedEvidence.hashHex h
  have hepoch := congrArg Observation.epoch (hcons _ ha _ hb rfl hhash)
  have hversion := congrArg VersionedEvidence.version h
  obtain ⟨⟨n, hn⟩, e, x⟩ := a
  obtain ⟨⟨m, hm⟩, e', y⟩ := b
  simp only [ManifestFloor.evidence, PositiveInt.toNatural, Subtype.mk.injEq] at hversion
  obtain rfl : e = e' := Option.some.inj hepoch
  obtain rfl : x = y := Subtype.ext hhash
  subst hversion
  rfl

theorem value_determined {id : EnvironmentId} {variableId : VariableId} {a b : ValueSide}
    (ha : valueObservation id variableId a ∈ observations) (hb : valueObservation id variableId b ∈ observations)
    (h : a.evidence = b.evidence) : a = b := by
  have hhash : a.valueSigHashHex.1 = b.valueSigHashHex.1 := congrArg VersionedEvidence.hashHex h
  have hepoch := congrArg Observation.epoch (hcons _ ha _ hb rfl hhash)
  have hversion := congrArg VersionedEvidence.version h
  obtain ⟨⟨n, hn⟩, e, x⟩ := a
  obtain ⟨⟨m, hm⟩, e', y⟩ := b
  simp only [ValueSide.evidence, PositiveInt.toNatural, Subtype.mk.injEq] at hversion
  obtain rfl : e = e' := Option.some.inj hepoch
  obtain rfl : x = y := Subtype.ext hhash
  subst hversion
  rfl

theorem variable_determined {id : EnvironmentId} {variableId : VariableId} {a b : VariableFloor}
    (ha : ∀ value side, a = .active value side → valueObservation id variableId value ∈ observations)
    (hb : ∀ value side, b = .active value side → valueObservation id variableId value ∈ observations)
    (h : a.evidence = b.evidence) : a = b := by
  cases a with
  | active u s =>
    cases b with
    | active v t =>
      simp only [VariableFloor.evidence, VariableEvidence.live.injEq, WithBot.coe_inj] at h
      rw [value_determined hcons (ha u s rfl) (hb v t rfl) h.1, metaSide_evidence_inj h.2]
    | declared t => simp [VariableFloor.evidence] at h
    | deleted t => simp [VariableFloor.evidence] at h
  | declared s =>
    cases b with
    | active v t => simp [VariableFloor.evidence] at h
    | declared t =>
      simp only [VariableFloor.evidence, VariableEvidence.live.injEq, true_and] at h
      rw [metaSide_evidence_inj h]
    | deleted t => simp [VariableFloor.evidence] at h
  | deleted s =>
    cases b with
    | active v t => simp [VariableFloor.evidence] at h
    | declared t => simp [VariableFloor.evidence] at h
    | deleted t =>
      simp only [VariableFloor.evidence, VariableEvidence.deleted.injEq] at h
      rw [metaSide_evidence_inj h]

theorem sameCoordinates_of_evidence {s t : FoldState} (hs : Drawn observations s) (ht : Drawn observations t)
    (h : s.evidence = t.evidence) : SameCoordinates s.floor t.floor := by
  refine ⟨rel_eq (asBot_eq (congrArg Prod.fst h)) fun _ _ _ _ he => chainHead_evidence_inj he, fun id => ?_⟩
  have hid := asBot_eq (congrFun (congrArg Prod.snd h) id)
  change Option.Rel SameEnvironment ((Record.fromEntries s.environments).get? id)
    ((Record.fromEntries t.environments).get? id)
  rw [Record.get?_fromEntries, Record.get?_fromEntries]
  cases ha : s.environments.get? id with
  | none =>
    rw [ha] at hid
    cases hb : t.environments.get? id with
    | none => exact .none
    | some b =>
      rw [hb] at hid
      cases hid
  | some a =>
    cases hb : t.environments.get? id with
    | none =>
      rw [ha, hb] at hid
      cases hid
    | some b =>
      rw [ha, hb] at hid
      cases hid with
      | some he =>
      refine .some ⟨congrArg EnvironmentEvidence.pullEpoch he, congrArg EnvironmentEvidence.observedEpoch he, ?_, ?_,
        fun variableId => ?_⟩
      · exact rel_eq (asBot_eq (congrArg EnvironmentEvidence.side he)) fun _ _ _ _ h => metaSide_evidence_inj h
      · exact rel_eq (asBot_eq (congrArg EnvironmentEvidence.manifest he)) fun m n hm hn h =>
          manifest_determined hcons (hs.1 id a m ha hm) (ht.1 id b n hb hn) h
      · exact rel_eq (asBot_eq (congrFun (congrArg EnvironmentEvidence.variableFloors he) variableId))
          fun f g hf hg h => variable_determined hcons
            (fun value side hv => hs.2 id a variableId value side ha (hf.trans (congrArg some hv)))
            (fun value side hv => ht.2 id b variableId value side hb (hg.trans (congrArg some hv))) h

end Determined

/-! ## No coordinate decreases -/

/-- The order of a variable's floors: a deletion above every live floor, an active one above a declared one. -/
def VariableGrows : VariableFloor → VariableFloor → Prop
  | .deleted a, .deleted b => a.evidence ≤ b.evidence
  | .deleted _, .active _ _ => False
  | .deleted _, .declared _ => False
  | .active _ _, .deleted _ => True
  | .declared _, .deleted _ => True
  | .active u a, .active v b => u.evidence ≤ v.evidence ∧ a.evidence ≤ b.evidence
  | .active _ _, .declared _ => False
  | .declared a, .active _ b => a.evidence ≤ b.evidence
  | .declared a, .declared b => a.evidence ≤ b.evidence

structure EnvironmentGrows (a b : EnvironmentFloor) : Prop where
  pullEpoch : a.pullEpoch ≤ b.pullEpoch
  observedEpoch : a.observedEpoch ≤ b.observedEpoch
  side : ∀ s, a.side = some s → ∃ t, b.side = some t ∧ s.evidence ≤ t.evidence
  manifest : ∀ m, a.manifest = some m → ∃ n, b.manifest = some n ∧ m.evidence ≤ n.evidence
  variableFloors : ∀ id f, a.variableFloors.get? id = some f → ∃ g, b.variableFloors.get? id = some g ∧ VariableGrows f g

structure NoneDecreases (a b : ProjectFloor) : Prop where
  chainHead : ∀ h, a.chainHead = some h → ∃ k, b.chainHead = some k ∧ h.evidence ≤ k.evidence
  environments : ∀ id e, a.environments.get? id = some e → ∃ f, b.environments.get? id = some f ∧ EnvironmentGrows e f

theorem asBot_le {T U : Type} [LE U] {f : T → U} {a b : Option T} (h : asBot f a ≤ asBot f b) {t : T} (ha : a = some t) :
    ∃ u, b = some u ∧ f t ≤ f u := by
  subst ha
  cases b with
  | none => exact absurd h (WithBot.not_coe_le_bot _)
  | some u => exact ⟨u, rfl, WithBot.coe_le_coe.mp h⟩

theorem variableGrows_of_le {f g : VariableFloor} (h : f.evidence ≤ g.evidence) : VariableGrows f g := by
  cases f <;> cases g <;> first | exact h | exact h.2 | trivial | skip
  · exact ⟨WithBot.coe_le_coe.mp h.1, h.2⟩
  · exact absurd h.1 (WithBot.not_coe_le_bot _)

theorem noneDecreases_of_le {s t : FoldState} (h : s.evidence ≤ t.evidence) : NoneDecreases s.floor t.floor := by
  refine ⟨fun head hhead => asBot_le h.1 hhead, fun id e he => ?_⟩
  change (Record.fromEntries s.environments).get? id = some e at he
  rw [Record.get?_fromEntries] at he
  obtain ⟨f, hf, hle⟩ := asBot_le (h.2 id) he
  refine ⟨f, (Record.get?_fromEntries _ _).trans hf, hle.1, hle.2.1, fun _ hs => asBot_le hle.2.2.1 hs,
    fun _ hm => asBot_le hle.2.2.2.1 hm, fun variableId floor hfloor => ?_⟩
  obtain ⟨g, hg, hvariable⟩ := asBot_le (hle.2.2.2.2 variableId) hfloor
  exact ⟨g, hg, variableGrows_of_le hvariable⟩

/-! ## Observing twice -/

/-- A repeated join keeps the value and sinks no new conflict. -/
def Settled {T : Type} (first again : T × List FloorConflict) : Prop := again.1 = first.1 ∧ ∀ c ∈ again.2, c ∈ first.2

theorem joinVersioned_settled {T : Type} (evidence : T → VersionedEvidence) (a b : T)
    (conflict : VersionedEvidence → VersionedEvidence → FloorConflict) :
    Settled (joinVersioned evidence a b conflict)
      (joinVersioned evidence (joinVersioned evidence a b conflict).1 b conflict) := by
  unfold Settled
  by_cases hv : (evidence a).version = (evidence b).version
  · by_cases hh : (evidence a).hashHex = (evidence b).hashHex
    · simp [joinVersioned, hv, hh]
    · by_cases hlt : (evidence b).hashHex < (evidence a).hashHex <;> simp [joinVersioned, hv, hh, hlt]
  · by_cases hlt : (evidence a).version > (evidence b).version <;> simp [joinVersioned, hv, hlt]

theorem joinChainHead_settled (existing : Option ChainHeadFloor) (incoming : ChainHeadFloor) :
    Settled (joinChainHead existing incoming) (joinChainHead (some (joinChainHead existing incoming).1) incoming) := by
  cases existing with
  | none => simp [Settled, joinChainHead]
  | some existing => exact joinVersioned_settled _ _ _ _

theorem joinEnvironmentSide_settled (id : EnvironmentId) (existing incoming : Option MetaSide) :
    Settled (joinEnvironmentSide id existing incoming)
      (joinEnvironmentSide id (joinEnvironmentSide id existing incoming).1 incoming) := by
  cases existing with
  | none => cases incoming <;> simp [Settled, joinEnvironmentSide, joinMetaSide]
  | some a =>
    cases incoming with
    | none => simp [Settled, joinEnvironmentSide]
    | some b =>
      have h := joinVersioned_settled MetaSide.evidence a b (conflictOf .environmentMeta (some id) none)
      exact ⟨congrArg some h.1, h.2⟩

theorem joinManifestFloor_settled (id : EnvironmentId) (existing incoming : Option ManifestFloor) :
    Settled (joinManifestFloor id existing incoming)
      (joinManifestFloor id (joinManifestFloor id existing incoming).1 incoming) := by
  cases existing with
  | none => cases incoming <;> simp [Settled, joinManifestFloor]
  | some a =>
    cases incoming with
    | none => simp [Settled, joinManifestFloor]
    | some b =>
      have h := joinVersioned_settled ManifestFloor.evidence a b (conflictOf .manifest (some id) none)
      exact ⟨congrArg some h.1, h.2⟩

theorem joinVariableFloor_settled (id : EnvironmentId) (variableId : VariableId) (existing : Option VariableFloor)
    (incoming : VariableFloor) : Settled (joinVariableFloor id variableId existing incoming)
      (joinVariableFloor id variableId (some (joinVariableFloor id variableId existing incoming).1) incoming) := by
  have hside := fun a b => joinVersioned_settled MetaSide.evidence a b
    (conflictOf .variableMeta (some id) (some variableId))
  have hvalue := fun a b => joinVersioned_settled ValueSide.evidence a b
    (conflictOf .value (some id) (some variableId))
  cases existing with
  | none => cases incoming <;> simp [Settled, joinVariableFloor, joinMetaSide]
  | some existing =>
    cases existing with
    | active u a =>
      cases incoming with
      | active v b =>
        refine ⟨congrArg₂ _ (hvalue u v).1 (hside a b).1, fun c hc => ?_⟩
        rcases List.mem_append.mp hc with hc | hc
        · exact List.mem_append.mpr (Or.inl ((hside a b).2 c hc))
        · exact List.mem_append.mpr (Or.inr ((hvalue u v).2 c hc))
      | declared b => exact ⟨congrArg (VariableFloor.active u) (hside a b).1, (hside a b).2⟩
      | deleted b => simp [Settled, joinVariableFloor, joinDeletedWithLive, joinMetaSide]
    | declared a =>
      cases incoming with
      | active v b =>
        refine ⟨congrArg₂ _ (by simp) (hside a b).1, fun c hc => ?_⟩
        rcases List.mem_append.mp hc with hc | hc
        · exact (hside a b).2 c hc
        · simp at hc
      | declared b => exact ⟨congrArg VariableFloor.declared (hside a b).1, (hside a b).2⟩
      | deleted b => simp [Settled, joinVariableFloor, joinDeletedWithLive, joinMetaSide]
    | deleted a =>
      cases incoming with
      | active v b => exact ⟨rfl, fun c hc => hc⟩
      | declared b => exact ⟨rfl, fun c hc => hc⟩
      | deleted b => exact ⟨congrArg VariableFloor.deleted (hside a b).1, (hside a b).2⟩

theorem record_set_self {r : Record VariableId VariableFloor} {id : VariableId} {floor : VariableFloor}
    (h : r.get? id = some floor) : r.set id floor = r := by
  apply Record.ext_keys
  · exact Record.keys_set_of_mem floor ((Record.mem_keys _ _).mpr ⟨floor, h⟩)
  · intro a
    rw [Record.get?_set]
    split_ifs with ha
    · rw [ha, h]
    · rfl

theorem joinVariables_unchanged (id : EnvironmentId) (existing : Record VariableId VariableFloor)
    (incoming : List (VariableId × VariableFloor)) (conflicts : List FloorConflict)
    (h : ∀ e ∈ incoming, ∃ floor, existing.get? e.1 = some floor ∧
      (joinVariableFloor id e.1 (some floor) e.2).1 = floor) :
    (joinVariables id existing incoming (existing, conflicts)).1 = existing := by
  induction incoming generalizing conflicts with
  | nil => rfl
  | cons e rest ih =>
    obtain ⟨floor, hget, hsame⟩ := h e (by simp)
    have hstep : joinVariableInto id existing (existing, conflicts) e =
        (existing, conflicts ++ (joinVariableFloor id e.1 (some floor) e.2).2) := by
      unfold joinVariableInto
      rw [hget, hsame, record_set_self hget]
    unfold joinVariables at ih ⊢
    rw [List.foldl_cons, hstep]
    exact ih _ fun d hd => h d (by simp [hd])

theorem joinEnvironmentFloor_self (id : EnvironmentId) (floor : EnvironmentFloor) :
    joinEnvironmentFloor id (some floor) floor = (floor, []) := by
  have hself : ∀ e ∈ floor.variableFloors.entries, joinVariableFloor id e.1 (floor.variableFloors.get? e.1) e.2 = (e.2, []) := by
    intro e he
    rw [(Record.mem_entries _ _ _).mp he]
    cases e.2 <;> simp [joinVariableFloor, joinMetaSide]
  have hside : joinEnvironmentSide id floor.side floor.side = (floor.side, []) := by
    cases floor.side <;> simp [joinEnvironmentSide, joinMetaSide]
  have hmanifest : joinManifestFloor id floor.manifest floor.manifest = (floor.manifest, []) := by
    cases floor.manifest <;> simp [joinManifestFloor]
  have hvariables : joinVariables id floor.variableFloors floor.variableFloors.entries (floor.variableFloors, []) =
      (floor.variableFloors, []) := by
    refine Prod.ext ?_ ?_
    · apply joinVariables_unchanged
      intro e he
      have hget := (Record.mem_entries _ _ _).mp he
      exact ⟨e.2, hget, by rw [← hget, hself e he]⟩
    · rw [joinVariables_conflicts, List.nil_append, List.flatMap_eq_nil_iff]
      intro e he
      rw [hself e he]
  unfold joinEnvironmentFloor
  simp only [hside, hmanifest, hvariables, max_self, List.append_nil]

theorem joinEnvironmentFloor_settled (id : EnvironmentId) (existing : Option EnvironmentFloor)
    (incoming : EnvironmentFloor) : Settled (joinEnvironmentFloor id existing incoming)
      (joinEnvironmentFloor id (some (joinEnvironmentFloor id existing incoming).1) incoming) := by
  cases existing with
  | none =>
    change Settled (incoming, []) (joinEnvironmentFloor id (some incoming) incoming)
    rw [joinEnvironmentFloor_self]
    exact ⟨rfl, fun _ h => h⟩
  | some existing =>
    have hside := joinEnvironmentSide_settled id existing.side incoming.side
    have hmanifest := joinManifestFloor_settled id existing.manifest incoming.manifest
    have hvariable := fun variableId floor =>
      joinVariableFloor_settled id variableId (existing.variableFloors.get? variableId) floor
    have hget : ∀ e ∈ incoming.variableFloors.entries, (joinVariables id existing.variableFloors
        incoming.variableFloors.entries (existing.variableFloors, [])).1.get? e.1 =
          some (joinVariableFloor id e.1 (existing.variableFloors.get? e.1) e.2).1 := by
      intro e he
      have hlookup : incoming.variableFloors.entries.lookup e.1 = some e.2 := (Record.mem_entries _ _ _).mp he
      rw [joinVariables_get? _ _ _ incoming.variableFloors.nodup, hlookup]
      rfl
    have hvariables := joinVariables_unchanged id (joinVariables id existing.variableFloors
      incoming.variableFloors.entries (existing.variableFloors, [])).1 incoming.variableFloors.entries []
      fun e he => ⟨_, hget e he, (hvariable e.1 e.2).1⟩
    refine ⟨?_, fun c hc => ?_⟩
    · unfold joinEnvironmentFloor
      simp only [hside.1, hmanifest.1, hvariables, max_assoc, max_self]
    · unfold joinEnvironmentFloor at hc ⊢
      simp only [List.mem_append] at hc ⊢
      rcases hc with (hc | hc) | hc
      · exact Or.inl (Or.inl (hside.2 c hc))
      · exact Or.inl (Or.inr (hmanifest.2 c hc))
      · rw [joinVariables_conflicts, List.nil_append, List.mem_flatMap] at hc ⊢
        obtain ⟨e, he, hc⟩ := hc
        rw [hget e he] at hc
        exact Or.inr ⟨e, he, (hvariable e.1 e.2).2 c hc⟩

theorem joinHeadInto_again {state : FoldState} {head : ChainHeadFloor} (existing : Option ChainHeadFloor)
    (hhead : state.chainHead = some (joinChainHead existing head).1)
    (hconflicts : ∀ c ∈ (joinChainHead existing head).2, state.conflicts.has (conflictKey c) = true) :
    joinHeadInto state head = state := by
  have hsettled := joinChainHead_settled existing head
  unfold joinHeadInto
  dsimp only
  rw [hhead, addConflicts_recorded fun c hc => hconflicts c (hsettled.2 c hc), hsettled.1, ← hhead]

theorem joinEnvironmentInto_again {state : FoldState} {id : EnvironmentId} {incoming : EnvironmentFloor}
    {existing : Option EnvironmentFloor}
    (hget : state.environments.get? id = some (joinEnvironmentFloor id existing incoming).1)
    (hconflicts : ∀ c ∈ (joinEnvironmentFloor id existing incoming).2, state.conflicts.has (conflictKey c) = true) :
    joinEnvironmentInto state id incoming = state := by
  have hsettled := joinEnvironmentFloor_settled id existing incoming
  unfold joinEnvironmentInto
  dsimp only
  rw [hget, addConflicts_recorded fun c hc => hconflicts c (hsettled.2 c hc), hsettled.1, OrderedMap.set_self hget]

theorem observe_twice (state : FoldState) (o : Observed) : observe (observe state o) o = observe state o := by
  obtain ⟨head, environment⟩ := o
  unfold observe
  cases environment with
  | none =>
    dsimp only
    exact joinHeadInto_again state.chainHead rfl fun c hc => addConflicts_have _ _ hc
  | some e =>
    obtain ⟨id, incoming⟩ := e
    dsimp only
    have hframe := addConflicts_frame
      (joinEnvironmentFloor id ((joinHeadInto state head).environments.get? id) incoming).2 (joinHeadInto state head)
    rw [joinHeadInto_again state.chainHead]
    · exact joinEnvironmentInto_again (OrderedMap.get?_set_self _ _ _) fun c hc => addConflicts_have _ _ hc
    · exact congrArg FoldState.chainHead hframe
    · intro c hc
      exact @addConflicts_keep (joinHeadInto state head) _ _ (addConflicts_have _ _ hc)

/-! ## A statement's version falls only in a conflict -/

def VariableFloor.side : VariableFloor → MetaSide
  | active _ side => side
  | declared side => side
  | deleted side => side

/-- A deletion stands above a later live statement, and then the two are reported. -/
def FallsReported (a b : ProjectFloor) : Prop :=
  ∀ id e e' variableId f f', a.environments.get? id = some e → b.environments.get? id = some e' →
    e.variableFloors.get? variableId = some f → e'.variableFloors.get? variableId = some f' →
    f'.side.metaVersion < f.side.metaVersion → b.conflicts ≠ []

theorem joinMetaSide_metaVersion (id : EnvironmentId) (variableId : Option VariableId) (a b : MetaSide) :
    a.metaVersion ≤ (joinMetaSide id variableId a b).1.metaVersion := by
  have h : a.evidence ≤ (joinMetaSide id variableId a b).1.evidence := by
    unfold joinMetaSide
    rw [joinVersioned_evidence MetaSide.evidence]
    exact le_sup_left
  exact version_mono h

theorem joinVariableFloor_falls {id : EnvironmentId} {variableId : VariableId} {existing incoming : VariableFloor}
    (h : (joinVariableFloor id variableId (some existing) incoming).1.side.metaVersion < existing.side.metaVersion) :
    (joinVariableFloor id variableId (some existing) incoming).2 ≠ [] := by
  have hlive : ∀ a b, ¬ (joinMetaSide id (some variableId) a b).1.metaVersion < a.metaVersion := fun a b =>
    not_lt.mpr (joinMetaSide_metaVersion id (some variableId) a b)
  have hdeleted : ∀ a b : MetaSide, b.metaVersion < a.metaVersion → (joinDeletedWithLive id variableId b a).2 ≠ [] := by
    intro a b hlt
    simp [joinDeletedWithLive, hlt]
  cases existing with
  | active u a =>
    cases incoming with
    | active v b => exact absurd h (hlive a b)
    | declared b => exact absurd h (hlive a b)
    | deleted b => exact hdeleted a b h
  | declared a =>
    cases incoming with
    | active v b => exact absurd h (hlive a b)
    | declared b => exact absurd h (hlive a b)
    | deleted b => exact hdeleted a b h
  | deleted a =>
    cases incoming with
    | active v b => exact absurd h (lt_irrefl _)
    | declared b => exact absurd h (lt_irrefl _)
    | deleted b => exact absurd h (hlive a b)

theorem conflicts_of_sunk {state : FoldState} {o : Observed} (h : sunk state o ≠ []) :
    (observe state o).floor.conflicts ≠ [] := by
  obtain ⟨c, hc⟩ := List.exists_mem_of_ne_nil _ h
  have hhas := addConflicts_have (sunk state o) state hc
  rw [← observe_conflicts] at hhas
  obtain ⟨d, hd⟩ := (OrderedMap.has_iff _ _).mp hhas
  exact List.ne_nil_of_mem ((OrderedMap.mem_values _ d).mpr ⟨_, hd⟩)

theorem observe_falls (state : FoldState) (o : Observed) : FallsReported state.floor (observe state o).floor := by
  obtain ⟨head, environment⟩ := o
  intro id e e' variableId f f' he he' hf hf' hlt
  apply conflicts_of_sunk
  change (Record.fromEntries state.environments).get? id = some e at he
  change (Record.fromEntries (observe state _).environments).get? id = some e' at he'
  rw [Record.get?_fromEntries] at he he'
  unfold observe at he'
  cases environment with
  | none =>
    dsimp only at he'
    rw [joinHeadInto_environments, he] at he'
    cases he'
    rw [hf] at hf'
    cases hf'
    exact absurd hlt (lt_irrefl _)
  | some pair =>
    obtain ⟨id', incoming⟩ := pair
    change ((joinHeadInto state head).environments.set id' _).get? id = some e' at he'
    rw [OrderedMap.get?_set, joinHeadInto_environments] at he'
    split_ifs at he' with hid
    · subst hid
      rw [he] at he'
      cases he'
      change (joinVariables _ _ _ _).1.get? variableId = _ at hf'
      rw [joinVariables_get? _ _ _ incoming.variableFloors.nodup, hf] at hf'
      change ((incoming.variableFloors.get? variableId).map _).or _ = _ at hf'
      cases hin : incoming.variableFloors.get? variableId with
      | none =>
        rw [hin] at hf'
        cases hf'
        exact absurd hlt (lt_irrefl _)
      | some floor =>
        rw [hin] at hf'
        cases hf'
        obtain ⟨c, hc⟩ := List.exists_mem_of_ne_nil _ (joinVariableFloor_falls hlt)
        have hmem : c ∈ (joinEnvironmentFloor id (some e) incoming).2 := by
          unfold joinEnvironmentFloor
          dsimp only
          rw [joinVariables_conflicts, List.mem_append, List.nil_append]
          refine Or.inr (List.mem_flatMap.mpr ⟨(variableId, floor), (Record.mem_entries _ _ _).mpr hin, ?_⟩)
          rw [hf]
          exact hc
        apply List.ne_nil_of_mem (a := c)
        unfold sunk
        rw [List.mem_append]
        exact Or.inr (by simpa [he] using hmem)
    · rw [he] at he'
      cases he'
      rw [hf] at hf'
      cases hf'
      exact absurd hlt (lt_irrefl _)

/-! ## Every order, every repetition -/

theorem foldOf_drawn {records permuted : List FloorLogRecord} (h : ∀ r ∈ permuted, r ∈ records) :
    Drawn (observationsOf records) ((permuted.filterMap observed?).foldl observe emptyState) := by
  apply foldl_observe_drawn
  intro o ho x hx
  obtain ⟨r, hr, hobs⟩ := List.mem_filterMap.mp ho
  exact List.mem_flatMap.mpr ⟨o, List.mem_filterMap.mpr ⟨r, h r hr, hobs⟩, hx⟩

theorem foldOf_sameCoordinates {records l l' : List FloorLogRecord} (hobs : ∀ r ∈ records, IsObservation r)
    (hcons : Consistent records) (hl : ∀ r ∈ l, r ∈ records) (hl' : ∀ r ∈ l', r ∈ records)
    (h : joined ((l.filterMap observed?).map Observed.evidence) = joined ((l'.filterMap observed?).map Observed.evidence)) :
    SameCoordinates (foldOf l) (foldOf l') := by
  rw [foldOf_eq fun r hr => hobs r (hl r hr), foldOf_eq fun r hr => hobs r (hl' r hr)]
  apply sameCoordinates_of_evidence hcons (foldOf_drawn hl) (foldOf_drawn hl')
  rw [foldl_observe_evidence, foldl_observe_evidence, h]

theorem floor_order_independence (records : List FloorLogRecord) (hobs : ∀ r ∈ records, IsObservation r)
    (hcons : Consistent records) :
    (∀ permuted, records.Perm permuted → SameCoordinates (foldOf records) (foldOf permuted)) ∧
      (∀ r ∈ records, SameCoordinates (foldOf (records ++ [r])) (foldOf records)) ∧
      ∀ r, IsObservation r → foldOf (records ++ [r, r]) = foldOf (records ++ [r]) ∧
        NoneDecreases (foldOf records) (foldOf (records ++ [r])) ∧
        FallsReported (foldOf records) (foldOf (records ++ [r])) := by
  refine ⟨fun permuted hperm => ?_, fun r hr => ?_, fun r hr => ?_⟩
  · apply foldOf_sameCoordinates hobs hcons (fun _ h => h) fun r hr => hperm.mem_iff.mpr hr
    exact joined_perm ((hperm.filterMap observed?).map Observed.evidence)
  · apply foldOf_sameCoordinates hobs hcons _ fun _ h => h
    · obtain ⟨o, ho⟩ := Option.isSome_iff_exists.mp (hobs r hr)
      rw [List.filterMap_append, List.filterMap_cons, ho, List.filterMap_nil, List.map_append, List.map_singleton]
      exact joined_snoc_mem (List.mem_map_of_mem (List.mem_filterMap.mpr ⟨r, hr, ho⟩))
    · intro s hs
      rcases List.mem_append.mp hs with hs | hs
      · exact hs
      · exact List.mem_singleton.mp hs ▸ hr
  · obtain ⟨o, ho⟩ := Option.isSome_iff_exists.mp hr
    have hall : ∀ l, (∀ s ∈ l, s = r) → ∀ s ∈ records ++ l, IsObservation s := by
      intro l hl s hs
      rcases List.mem_append.mp hs with hs | hs
      · exact hobs s hs
      · exact hl s hs ▸ hr
    have hone : foldOf (records ++ [r]) = (observe ((records.filterMap observed?).foldl observe emptyState) o).floor := by
      rw [foldOf_eq (hall [r] (by simp)), List.filterMap_append, List.filterMap_cons, ho, List.foldl_append]
      rfl
    have htwo : foldOf (records ++ [r, r]) =
        (observe (observe ((records.filterMap observed?).foldl observe emptyState) o) o).floor := by
      rw [foldOf_eq (hall [r, r] (by simp)), List.filterMap_append, List.filterMap_cons, List.filterMap_cons, ho,
        List.foldl_append]
      rfl
    rw [htwo, hone, observe_twice, foldOf_eq hobs]
    refine ⟨rfl, noneDecreases_of_le ?_, observe_falls _ o⟩
    rw [observe_evidence]
    exact le_sup_left

/-- A hash of one repeated digit. -/
def digitHash (u : UInt16) (h : isHexOfLength 64 (List.replicate 64 u) = true) : HashHex := ⟨List.replicate 64 u, h⟩

theorem digit48_hash : isHexOfLength 64 (List.replicate 64 48) = true := by decide
theorem digit49_hash : isHexOfLength 64 (List.replicate 64 49) = true := by decide
theorem digit50_hash : isHexOfLength 64 (List.replicate 64 50) = true := by decide
theorem digit51_hash : isHexOfLength 64 (List.replicate 64 51) = true := by decide
theorem digit52_hash : isHexOfLength 64 (List.replicate 64 52) = true := by decide

theorem one_safe : 1 ≤ 1 ∧ 1 ≤ Json.maxSafeInteger := by decide
theorem two_safe : 1 ≤ 2 ∧ 2 ≤ Json.maxSafeInteger := by decide

def exampleId : ResourceId := ⟨lit "a", by decide⟩

def exampleHead : ChainHeadFloor := ⟨⟨1, one_safe⟩, digitHash 48 digit48_hash⟩

/-- One variable pushed twice, and deleted. -/
def exampleRecords : List FloorLogRecord :=
  [.push exampleHead exampleId exampleId
      (.active ⟨⟨1, one_safe⟩, ⟨1, one_safe⟩, digitHash 49 digit49_hash⟩ ⟨⟨1, one_safe⟩, digitHash 50 digit50_hash⟩),
    .push exampleHead exampleId exampleId
      (.active ⟨⟨2, two_safe⟩, ⟨1, one_safe⟩, digitHash 51 digit51_hash⟩ ⟨⟨1, one_safe⟩, digitHash 50 digit50_hash⟩),
    .push exampleHead exampleId exampleId (.deleted ⟨⟨2, two_safe⟩, digitHash 52 digit52_hash⟩)]

theorem exampleRecords_consistent : Consistent exampleRecords := by
  unfold Consistent
  decide

theorem floor_order_independence_example :
    SameCoordinates (foldOf exampleRecords) (foldOf exampleRecords.reverse) :=
  (floor_order_independence exampleRecords (by unfold IsObservation; decide) exampleRecords_consistent).1 _
    (List.reverse_perm _).symm

end Maruhi.Floor
