import Mathlib.Data.List.MinMax
import Maruhi.Floor.Lanes

/-!
# When equivocation is reported

The join compares an observation with the latest of its lane only. Two hashes at one version are reported
exactly where the second is folded before a later version, or a deletion, covers the first.
-/

open Text

namespace Maruhi.Floor

open FloorEvidence

/-! ## What one observation sinks -/

/-- Two hashes at one version. -/
def Splits (a b : WithBot VersionedEvidence) : Prop :=
  ∃ e e' : VersionedEvidence, a = ↑e ∧ b = ↑e' ∧ e.version = e'.version ∧ e.hashHex ≠ e'.hashHex

/-- A live statement at or after a deletion. -/
def Revived (live deleted : WithBot VersionedEvidence) : Prop :=
  ∃ e e' : VersionedEvidence, live = ↑e ∧ deleted = ↑e' ∧ e'.version ≤ e.version

@[simp] theorem splits_coe (e e' : VersionedEvidence) :
    Splits ↑e ↑e' ↔ e.version = e'.version ∧ e.hashHex ≠ e'.hashHex := by
  simp [Splits]

@[simp] theorem splits_bot_left (b : WithBot VersionedEvidence) : ¬ Splits ⊥ b := by simp [Splits]

@[simp] theorem splits_bot_right (a : WithBot VersionedEvidence) : ¬ Splits a ⊥ := by simp [Splits]

@[simp] theorem revived_coe (e e' : VersionedEvidence) : Revived ↑e ↑e' ↔ e'.version ≤ e.version := by simp [Revived]

@[simp] theorem revived_bot_left (b : WithBot VersionedEvidence) : ¬ Revived ⊥ b := by simp [Revived]

@[simp] theorem revived_bot_right (a : WithBot VersionedEvidence) : ¬ Revived a ⊥ := by simp [Revived]

/-- What is known of a variable contradicts what comes in. -/
def VariableClash (known incoming : WithBot VariableEvidence) : Prop :=
  Splits (lower VariableEvidence.valuePart known) (lower VariableEvidence.valuePart incoming) ∨
    Splits (lower VariableEvidence.livePart known) (lower VariableEvidence.livePart incoming) ∨
    Splits (lower VariableEvidence.deletedPart known) (lower VariableEvidence.deletedPart incoming) ∨
    Revived (lower VariableEvidence.livePart known) (lower VariableEvidence.deletedPart incoming) ∨
    Revived (lower VariableEvidence.livePart incoming) (lower VariableEvidence.deletedPart known)

/-- What is known contradicts what comes in. -/
def Clash (known incoming : FloorEvidence) : Prop :=
  (∃ lane, Splits (latest known lane) (latest incoming lane)) ∨
    ∃ id variableId, Revived (latest known (.live id variableId)) (latest incoming (.deleted id variableId)) ∨
      Revived (latest incoming (.live id variableId)) (latest known (.deleted id variableId))

theorem joinDeletedWithLive_conflict (id : EnvironmentId) (variableId : VariableId) (deleted live : MetaSide) :
    (joinDeletedWithLive id variableId deleted live).2 ≠ [] ↔ deleted.evidence.version ≤ live.evidence.version := by
  unfold joinDeletedWithLive
  change _ ↔ deleted.metaVersion ≤ live.metaVersion
  dsimp only
  split_ifs with hgt heq
  · simp [hgt.le]
  · simp [heq]
  · simp [lt_of_le_of_ne (not_lt.mp hgt) heq]

theorem append_ne_nil {α : Type} (l m : List α) : l ++ m ≠ [] ↔ l ≠ [] ∨ m ≠ [] := by
  rw [ne_eq, List.append_eq_nil_iff, not_and_or]

theorem joinVersioned_splits {T : Type} (evidence : T → VersionedEvidence) (a b : T)
    (conflict : VersionedEvidence → VersionedEvidence → FloorConflict) :
    (joinVersioned evidence a b conflict).2 ≠ [] ↔
      Splits (evidence a : WithBot VersionedEvidence) (evidence b : WithBot VersionedEvidence) := by
  rw [joinVersioned_conflict, splits_coe]

theorem joinVariableFloor_conflict (id : EnvironmentId) (variableId : VariableId) (existing : Option VariableFloor)
    (incoming : VariableFloor) : (joinVariableFloor id variableId existing incoming).2 ≠ [] ↔
      VariableClash (asBot VariableFloor.evidence existing) incoming.evidence := by
  unfold VariableClash
  cases existing with
  | none => simp [joinVariableFloor]
  | some existing =>
    have hside : ∀ a b, (joinMetaSide id (some variableId) a b).2 ≠ [] ↔
        Splits (a.evidence : WithBot VersionedEvidence) (b.evidence : WithBot VersionedEvidence) :=
      fun a b => joinVersioned_splits MetaSide.evidence a b _
    have hvalue := fun a b => joinVersioned_splits ValueSide.evidence a b
      (conflictOf .value (some id) (some variableId))
    have hdeleted := joinDeletedWithLive_conflict id variableId
    cases existing <;> cases incoming <;>
      simp only [joinVariableFloor, VariableFloor.evidence, VariableEvidence.valuePart, VariableEvidence.livePart,
        VariableEvidence.deletedPart, asBot_some, lower_coe, splits_bot_left, splits_bot_right, revived_bot_left,
        revived_bot_right, false_or, or_false, revived_coe, hside, hdeleted, append_ne_nil, hvalue]
    tauto

/-- What is known of an environment contradicts what comes in. -/
def EnvironmentClash (known incoming : WithBot EnvironmentEvidence) : Prop :=
  Splits (lower EnvironmentEvidence.side known) (lower EnvironmentEvidence.side incoming) ∨
    Splits (lower EnvironmentEvidence.manifest known) (lower EnvironmentEvidence.manifest incoming) ∨
    ∃ variableId, VariableClash (lower (fun e => e.variableFloors variableId) known)
      (lower (fun e => e.variableFloors variableId) incoming)

theorem joinEnvironmentSide_conflict (id : EnvironmentId) (existing incoming : Option MetaSide) :
    (joinEnvironmentSide id existing incoming).2 ≠ [] ↔
      Splits (asBot MetaSide.evidence existing) (asBot MetaSide.evidence incoming) := by
  cases existing <;> cases incoming <;> simp only [joinEnvironmentSide, asBot_none, asBot_some, splits_bot_left,
    splits_bot_right, ne_eq, not_true_eq_false]
  exact joinVersioned_splits MetaSide.evidence _ _ _

theorem joinManifestFloor_conflict (id : EnvironmentId) (existing incoming : Option ManifestFloor) :
    (joinManifestFloor id existing incoming).2 ≠ [] ↔
      Splits (asBot ManifestFloor.evidence existing) (asBot ManifestFloor.evidence incoming) := by
  cases existing <;> cases incoming <;> simp only [joinManifestFloor, asBot_none, asBot_some, splits_bot_left,
    splits_bot_right, ne_eq, not_true_eq_false]
  exact joinVersioned_splits ManifestFloor.evidence _ _ _

theorem joinVariables_conflict (id : EnvironmentId) (existing incoming : Record VariableId VariableFloor) :
    (joinVariables id existing incoming.entries (existing, [])).2 ≠ [] ↔
      ∃ variableId, VariableClash (asBot VariableFloor.evidence (existing.get? variableId))
        (asBot VariableFloor.evidence (incoming.get? variableId)) := by
  rw [joinVariables_conflicts, List.nil_append, ne_eq, List.flatMap_eq_nil_iff, not_forall]
  constructor
  · rintro ⟨⟨variableId, floor⟩, h⟩
    obtain ⟨hmem, hne⟩ := Classical.not_imp.mp h
    refine ⟨variableId, ?_⟩
    rw [(Record.mem_entries _ _ _).mp hmem]
    exact (joinVariableFloor_conflict id variableId _ floor).mp hne
  · rintro ⟨variableId, h⟩
    cases hin : incoming.get? variableId with
    | none =>
      rw [hin] at h
      simp [VariableClash] at h
    | some floor =>
      rw [hin] at h
      refine ⟨(variableId, floor), fun himp => ?_⟩
      exact (joinVariableFloor_conflict id variableId _ floor).mpr h (himp ((Record.mem_entries _ _ _).mpr hin))

theorem joinEnvironmentFloor_conflict (id : EnvironmentId) (existing : Option EnvironmentFloor)
    (incoming : EnvironmentFloor) : (joinEnvironmentFloor id existing incoming).2 ≠ [] ↔
      EnvironmentClash (asBot EnvironmentFloor.evidence existing) incoming.evidence := by
  unfold EnvironmentClash
  cases existing with
  | none => simp [joinEnvironmentFloor, VariableClash]
  | some existing =>
    unfold joinEnvironmentFloor
    dsimp only
    rw [append_ne_nil, append_ne_nil, joinEnvironmentSide_conflict, joinManifestFloor_conflict, joinVariables_conflict,
      or_assoc]
    rfl

theorem joinChainHead_conflict (existing : Option ChainHeadFloor) (incoming : ChainHeadFloor) :
    (joinChainHead existing incoming).2 ≠ [] ↔
      Splits (asBot ChainHeadFloor.evidence existing) (incoming.evidence : WithBot VersionedEvidence) := by
  cases existing with
  | none => simp [joinChainHead]
  | some existing => exact joinVersioned_splits ChainHeadFloor.evidence _ _ _

theorem clash_iff (known incoming : FloorEvidence) :
    Clash known incoming ↔ Splits known.1 incoming.1 ∨ ∃ id, EnvironmentClash (known.2 id) (incoming.2 id) := by
  unfold Clash EnvironmentClash VariableClash
  constructor
  · rintro (⟨lane, h⟩ | ⟨id, variableId, h⟩)
    · cases lane with
      | chainHead => exact Or.inl h
      | environmentMeta id => exact Or.inr ⟨id, Or.inl h⟩
      | manifest id => exact Or.inr ⟨id, Or.inr (Or.inl h)⟩
      | value id variableId => exact Or.inr ⟨id, Or.inr (Or.inr ⟨variableId, Or.inl h⟩)⟩
      | live id variableId => exact Or.inr ⟨id, Or.inr (Or.inr ⟨variableId, Or.inr (Or.inl h)⟩)⟩
      | deleted id variableId => exact Or.inr ⟨id, Or.inr (Or.inr ⟨variableId, Or.inr (Or.inr (Or.inl h))⟩)⟩
    · exact Or.inr ⟨id, Or.inr (Or.inr ⟨variableId, Or.inr (Or.inr (Or.inr h))⟩)⟩
  · rintro (h | ⟨id, h | h | ⟨variableId, h | h | h | h⟩⟩)
    · exact Or.inl ⟨.chainHead, h⟩
    · exact Or.inl ⟨.environmentMeta id, h⟩
    · exact Or.inl ⟨.manifest id, h⟩
    · exact Or.inl ⟨.value id variableId, h⟩
    · exact Or.inl ⟨.live id variableId, h⟩
    · exact Or.inl ⟨.deleted id variableId, h⟩
    · exact Or.inr ⟨id, variableId, h⟩

theorem sunk_iff (state : FoldState) (o : Observed) : sunk state o ≠ [] ↔ Clash state.evidence o.evidence := by
  obtain ⟨head, environment⟩ := o
  rw [clash_iff]
  unfold sunk
  rw [append_ne_nil, joinChainHead_conflict]
  refine or_congr Iff.rfl ?_
  cases environment with
  | none => simp [Observed.evidence, EnvironmentClash, VariableClash]
  | some pair =>
    obtain ⟨id, incoming⟩ := pair
    simp only [Option.toList_some, List.flatMap_cons, List.flatMap_nil, List.append_nil, joinEnvironmentFloor_conflict]
    constructor
    · intro h
      refine ⟨id, ?_⟩
      simp only [Observed.evidence, if_true]
      exact h
    · rintro ⟨id', h⟩
      simp only [Observed.evidence] at h
      split_ifs at h with hid
      · exact hid ▸ h
      · simp [EnvironmentClash, VariableClash] at h

/-! ## What a log reports -/

/-- Each of these meets what the ones before it tell, without a clash. -/
def Unclashed (l : List FloorEvidence) : Prop := ∀ pre a rest, l = pre ++ a :: rest → ¬ Clash (joined pre) a

theorem unclashed_snoc (l : List FloorEvidence) (a : FloorEvidence) :
    Unclashed (l ++ [a]) ↔ Unclashed l ∧ ¬ Clash (joined l) a := by
  constructor
  · intro h
    refine ⟨fun pre b rest hl => h pre b (rest ++ [a]) (by simp [hl]), h l a [] (by simp)⟩
  · rintro ⟨h, ha⟩ pre b rest hl
    cases rest using List.reverseRecOn with
    | nil =>
      obtain ⟨rfl, hab⟩ := List.append_inj' hl rfl
      cases hab
      exact ha
    | append_singleton rest c =>
      rw [← List.cons_append, ← List.append_assoc] at hl
      exact h pre b rest (List.append_inj' hl rfl).1

theorem conflicts_of_conflicts {state : FoldState} (o : Observed) (h : state.floor.conflicts ≠ []) :
    (observe state o).floor.conflicts ≠ [] := by
  obtain ⟨c, hc⟩ := List.exists_mem_of_ne_nil _ h
  obtain ⟨key, hkey⟩ := (OrderedMap.mem_values _ c).mp hc
  have hhas := addConflicts_keep (sunk state o) ((OrderedMap.has_iff _ _).mpr ⟨c, hkey⟩)
  rw [OrderedMap.has_iff, ← observe_conflicts] at hhas
  obtain ⟨d, hd⟩ := hhas
  exact List.ne_nil_of_mem ((OrderedMap.mem_values _ d).mpr ⟨_, hd⟩)

theorem observe_reports (state : FoldState) (o : Observed) :
    (observe state o).floor.conflicts ≠ [] ↔ state.floor.conflicts ≠ [] ∨ Clash state.evidence o.evidence := by
  rw [← sunk_iff]
  constructor
  · intro h
    by_cases hsunk : sunk state o = []
    · refine Or.inl fun hnone => h ?_
      change (observe state o).conflicts.values = []
      rw [observe_conflicts, hsunk]
      exact hnone
    · exact Or.inr hsunk
  · rintro (h | h)
    · exact conflicts_of_conflicts o h
    · exact conflicts_of_sunk h

theorem foldl_observe_reports (observed : List Observed) :
    (observed.foldl observe emptyState).floor.conflicts ≠ [] ↔ ¬ Unclashed (observed.map Observed.evidence) := by
  induction observed using List.reverseRecOn with
  | nil => simp [Unclashed, emptyState, FoldState.floor, OrderedMap.values, OrderedMap.empty]
  | append_singleton observed o ih =>
    rw [List.foldl_append, List.foldl_cons, List.foldl_nil, observe_reports, ih, foldl_observe_evidence, List.map_append,
      List.map_singleton, unclashed_snoc, not_and_or, not_not]

theorem not_hidden_of_snoc {l : List FloorEvidence} {a : FloorEvidence} {lane : Lane}
    (h : ¬ Hidden (joined (l ++ [a])) lane) : ¬ Hidden (joined l) lane ∧ ¬ Hidden a lane := by
  rw [joined_snoc, hidden_sup] at h
  exact not_or.mp h

theorem eq_of_not_splits {e f : VersionedEvidence} (h : ¬ Splits ↑e ↑f) (hv : e.version = f.version) : e = f := by
  rw [splits_coe, not_and_not_right] at h
  cases e
  cases f
  exact congrArg₂ _ hv (h hv)

theorem eq_of_unclashed {l : List FloorEvidence} (h : Unclashed l) {lane : Lane} (hh : ¬ Hidden (joined l) lane)
    {x : FloorEvidence} (hx : x ∈ l) {e e' : VersionedEvidence} (he : latest x lane = ↑e)
    (he' : latest (joined l) lane = ↑e') (hv : e.version = e'.version) : e = e' := by
  induction l using List.reverseRecOn generalizing x e e' with
  | nil => simp at hx
  | append_singleton l a ih =>
    obtain ⟨hl, hclash⟩ := (unclashed_snoc l a).mp h
    obtain ⟨hhl, hha⟩ := not_hidden_of_snoc hh
    have hsplits : ¬ Splits (latest (joined l) lane) (latest a lane) := fun hs => hclash (Or.inl ⟨lane, hs⟩)
    rw [joined_snoc, latest_sup hhl hha] at he'
    rcases List.mem_append.mp hx with hx | hx
    · have hnone : ∀ y ∈ l, ¬ Hidden y lane := fun y hy hhy => hhl ((hidden_joined l lane).mpr ⟨y, hy, hhy⟩)
      obtain ⟨f, hf, hle⟩ := exists_latest_joined hnone hx he
      rw [hf] at he' hsplits
      cases ha : latest a lane using WithBot.recBotCoe with
      | bot =>
        rw [ha, sup_bot_eq, WithBot.coe_inj] at he'
        exact ih hl hhl hx he (hf.trans (congrArg _ he')) hv
      | coe g =>
        rw [ha] at he' hsplits
        rw [← WithBot.coe_sup, WithBot.coe_inj] at he'
        rcases le_total g f with hgf | hfg
        · rw [sup_eq_left.mpr hgf] at he'
          exact ih hl hhl hx he (hf.trans (congrArg _ he')) hv
        · rw [sup_eq_right.mpr hfg] at he'
          subst he'
          -- the version of `f` lies between two equal ones
          have hef : e.version = f.version := le_antisymm (version_mono hle) (hv ▸ version_mono hfg)
          rw [ih hl hhl hx he hf hef]
          exact eq_of_not_splits hsplits (hef.symm.trans hv)
    · obtain rfl := List.mem_singleton.mp hx
      rw [he] at he' hsplits
      cases hl' : latest (joined l) lane using WithBot.recBotCoe with
      | bot =>
        rw [hl', bot_sup_eq, WithBot.coe_inj] at he'
        exact he'
      | coe f =>
        rw [hl'] at he' hsplits
        rw [← WithBot.coe_sup, WithBot.coe_inj] at he'
        rcases le_total f e with hfe | hef
        · rw [sup_eq_right.mpr hfe] at he'
          exact he'
        · rw [sup_eq_left.mpr hef] at he'
          subst he'
          exact (eq_of_not_splits hsplits hv.symm).symm

/-! ## Contradicting observations that meet -/

/-- An observation that comes after these contradicts one of them, and none of them covers that one: no later
version, no deletion. -/
inductive Meets (before : List Observation) : Observation → Prop
  | hash {x y : Observation} (hx : x ∈ before) (hlane : x.lane = y.lane) (hversion : x.version = y.version)
      (hhash : x.hashHex ≠ y.hashHex) (hlatest : ∀ z ∈ before, z.lane = x.lane → z.version ≤ x.version)
      (hhidden : ∀ z ∈ before, x.lane.hiddenBy ≠ some z.lane) : Meets before y
  | deletion {x y : Observation} (hx : x ∈ before) (hlane : ∃ id variableId, x.lane = .live id variableId ∧
      y.lane = .deleted id variableId) (hversion : y.version ≤ x.version)
      (hhidden : ∀ z ∈ before, x.lane.hiddenBy ≠ some z.lane) : Meets before y
  | revival {x y : Observation} (hx : x ∈ before) (hlane : ∃ id variableId, x.lane = .deleted id variableId ∧
      y.lane = .live id variableId) (hversion : ∀ z ∈ before, z.lane = x.lane → z.version ≤ y.version) : Meets before y

section Meeting
variable (observed : List Observed)

theorem mem_known {lane : Lane} {e : VersionedEvidence} :
    (∃ z ∈ observed.flatMap Observed.observations, z.lane = lane ∧ z.evidence = e) ↔
      ∃ known ∈ observed.map Observed.evidence, known.latest lane = ↑e := by
  simp only [List.mem_flatMap, List.mem_map]
  constructor
  · rintro ⟨z, ⟨o, ho, hz⟩, h⟩
    exact ⟨_, ⟨o, ho, rfl⟩, mem_observations.mp ⟨z, hz, h⟩⟩
  · rintro ⟨_, ⟨o, ho, rfl⟩, h⟩
    obtain ⟨z, hz, h⟩ := mem_observations.mpr h
    exact ⟨z, ⟨o, ho, hz⟩, h⟩

theorem hidden_known {lane : Lane} : Hidden (joined (observed.map Observed.evidence)) lane ↔
    ∃ z ∈ observed.flatMap Observed.observations, lane.hiddenBy = some z.lane := by
  rw [hidden_joined]
  constructor
  · rintro ⟨known, hknown, l, hl, hne⟩
    obtain ⟨e, he⟩ := WithBot.ne_bot_iff_exists.mp hne
    obtain ⟨z, hz, rfl, -⟩ := (mem_known observed).mpr ⟨known, hknown, he.symm⟩
    exact ⟨z, hz, hl⟩
  · rintro ⟨z, hz, hl⟩
    obtain ⟨known, hknown, h⟩ := (mem_known observed).mp ⟨z, hz, rfl, rfl⟩
    exact ⟨known, hknown, z.lane, hl, by simp [h]⟩

theorem latest_known {lane : Lane} {e : VersionedEvidence}
    (h : latest (joined (observed.map Observed.evidence)) lane = ↑e) :
    ∃ x ∈ observed.flatMap Observed.observations, x.lane = lane ∧ x.evidence = e ∧
      (∀ z ∈ observed.flatMap Observed.observations, z.lane = x.lane → z.version ≤ x.version) ∧
      ∀ z ∈ observed.flatMap Observed.observations, x.lane.hiddenBy ≠ some z.lane := by
  obtain ⟨hmem, hle, hnone⟩ := latest_joined_some h
  obtain ⟨x, hx, rfl, rfl⟩ := (mem_known observed).mpr hmem
  refine ⟨x, hx, rfl, rfl, fun z hz hlane => ?_, fun z hz hl => ?_⟩
  · obtain ⟨known, hknown, hz⟩ := (mem_known observed).mp ⟨z, hz, hlane, rfl⟩
    have hz' := hle known hknown
    rw [hz, WithBot.coe_le_coe] at hz'
    exact version_mono hz'
  · obtain ⟨known, hknown, hh⟩ := (hidden_joined _ _).mp ((hidden_known observed).mpr ⟨z, hz, hl⟩)
    exact hnone known hknown hh

theorem meets_of_clash {o : Observed} (h : Clash (joined (observed.map Observed.evidence)) o.evidence) :
    ∃ y ∈ o.observations, Meets (observed.flatMap Observed.observations) y := by
  rcases h with ⟨lane, e, e', he, he', hv, hh⟩ | ⟨id, variableId, ⟨e, e', he, he', hv⟩ | ⟨e, e', he, he', hv⟩⟩
  · obtain ⟨x, hx, rfl, rfl, hlatest, hhidden⟩ := latest_known observed he
    obtain ⟨y, hy, hlane, rfl⟩ := mem_observations.mpr he'
    exact ⟨y, hy, .hash hx hlane.symm hv hh hlatest hhidden⟩
  · obtain ⟨x, hx, hxlane, rfl, -, hhidden⟩ := latest_known observed he
    obtain ⟨y, hy, hylane, rfl⟩ := mem_observations.mpr he'
    exact ⟨y, hy, .deletion hx ⟨id, variableId, hxlane, hylane⟩ hv hhidden⟩
  · obtain ⟨x, hx, hxlane, rfl, hlatest, -⟩ := latest_known observed he'
    obtain ⟨y, hy, hylane, rfl⟩ := mem_observations.mpr he
    exact ⟨y, hy, .revival hx ⟨id, variableId, hxlane, hylane⟩ fun z hz hlane => (hlatest z hz hlane).trans hv⟩

theorem exists_latest_known {x : Observation} (hx : x ∈ observed.flatMap Observed.observations)
    (hhidden : ∀ z ∈ observed.flatMap Observed.observations, x.lane.hiddenBy ≠ some z.lane) :
    ∃ z ∈ observed.flatMap Observed.observations, z.lane = x.lane ∧ x.evidence ≤ z.evidence ∧
      latest (joined (observed.map Observed.evidence)) x.lane = ↑z.evidence := by
  have hnone : ∀ known ∈ observed.map Observed.evidence, ¬ Hidden known x.lane := by
    intro known hknown hh
    obtain ⟨z, hz, hl⟩ := (hidden_known observed).mp ((hidden_joined _ _).mpr ⟨known, hknown, hh⟩)
    exact hhidden z hz hl
  obtain ⟨known, hknown, he⟩ := (mem_known observed).mp ⟨x, hx, rfl, rfl⟩
  obtain ⟨e, hlatest, hle⟩ := exists_latest_joined hnone hknown he
  obtain ⟨z, hz, hlane, rfl⟩ := (mem_known observed).mpr (latest_joined_some hlatest).1
  exact ⟨z, hz, hlane, hle, hlatest⟩

theorem clash_of_meets (hun : Unclashed (observed.map Observed.evidence)) {o : Observed} {y : Observation}
    (hy : y ∈ o.observations) (h : Meets (observed.flatMap Observed.observations) y) :
    Clash (joined (observed.map Observed.evidence)) o.evidence := by
  have hincoming := mem_observations.mp ⟨y, hy, rfl, rfl⟩
  cases h with
  | hash hx hlane hversion hhash hlatest hhidden =>
    rename_i x
    obtain ⟨z, hz, hzlane, hle, hknown⟩ := exists_latest_known observed hx hhidden
    have hv : x.evidence.version = z.evidence.version := le_antisymm (version_mono hle) (hlatest z hz hzlane)
    obtain ⟨known, hmem, he⟩ := (mem_known observed).mp ⟨x, hx, rfl, rfl⟩
    have hnone : ¬ Hidden (joined (observed.map Observed.evidence)) x.lane := by
      intro hh
      obtain ⟨w, hw, hl⟩ := (hidden_known observed).mp hh
      exact hhidden w hw hl
    have heq := eq_of_unclashed hun hnone hmem he hknown hv
    refine Or.inl ⟨x.lane, x.evidence, y.evidence, heq ▸ hknown, ?_, hversion, hhash⟩
    rw [hlane]
    exact hincoming
  | deletion hx hlane hversion hhidden =>
    rename_i x
    obtain ⟨id, variableId, hxlane, hylane⟩ := hlane
    obtain ⟨z, hz, hzlane, hle, hknown⟩ := exists_latest_known observed hx hhidden
    refine Or.inr ⟨id, variableId, Or.inl ⟨z.evidence, y.evidence, hxlane ▸ hknown, hylane ▸ hincoming, ?_⟩⟩
    exact le_trans hversion (version_mono hle)
  | revival hx hlane hversion =>
    rename_i x
    obtain ⟨id, variableId, hxlane, hylane⟩ := hlane
    have hhidden : ∀ z ∈ observed.flatMap Observed.observations, x.lane.hiddenBy ≠ some z.lane := by
      intro z hz
      rw [hxlane]
      simp [Lane.hiddenBy]
    obtain ⟨z, hz, hzlane, -, hknown⟩ := exists_latest_known observed hx hhidden
    exact Or.inr ⟨id, variableId, Or.inr ⟨y.evidence, z.evidence, hylane ▸ hincoming, hxlane ▸ hknown,
      hversion z hz hzlane⟩⟩

/-- A log reports a conflict exactly where some observation meets what it contradicts. -/
theorem reports_iff : (observed.foldl observe emptyState).floor.conflicts ≠ [] ↔
    ∃ pre o rest, observed = pre ++ o :: rest ∧ ∃ y ∈ o.observations, Meets (pre.flatMap Observed.observations) y := by
  rw [foldl_observe_reports]
  constructor
  · intro h
    unfold Unclashed at h
    simp only [not_forall, not_not] at h
    obtain ⟨pre, a, rest, heq, hclash⟩ := h
    obtain ⟨pre, tail, rfl, rfl, htail⟩ := List.map_eq_append_iff.mp heq
    obtain ⟨o, rest, rfl, rfl, rfl⟩ := List.map_eq_cons_iff.mp htail
    exact ⟨pre, o, rest, rfl, meets_of_clash pre hclash⟩
  · rintro ⟨pre, o, rest, rfl, y, hy, hmeets⟩ hun
    have hpre : Unclashed (pre.map Observed.evidence) := by
      intro before a after heq
      apply hun before a (after ++ (o :: rest).map Observed.evidence)
      rw [List.map_append, heq, List.append_assoc, List.cons_append]
    apply hun (pre.map Observed.evidence) o.evidence (rest.map Observed.evidence) (by simp)
    exact clash_of_meets pre hpre hy hmeets

end Meeting

/-! ## Every order of a log -/

/-- Some record meets a contradicting observation of the records before it. -/
def EvidenceMet (records : List FloorLogRecord) : Prop :=
  ∃ pre r rest, records = pre ++ r :: rest ∧ ∃ y ∈ observationsOf [r], Meets (observationsOf pre) y

/-- Two observations tell two hashes of one version at one coordinate. -/
def Contradictory (records : List FloorLogRecord) : Prop :=
  ∃ x ∈ observationsOf records, ∃ y ∈ observationsOf records,
    x.coordinate = y.coordinate ∧ x.version = y.version ∧ x.hashHex ≠ y.hashHex

theorem conflicts_iff {records : List FloorLogRecord} (hobs : ∀ r ∈ records, IsObservation r) :
    (foldOf records).conflicts ≠ [] ↔ EvidenceMet records := by
  rw [foldOf_eq hobs, reports_iff]
  unfold EvidenceMet observationsOf
  constructor
  · rintro ⟨pre, o, rest, heq, hmeets⟩
    obtain ⟨before, tail, rfl, rfl, htail⟩ := List.filterMap_eq_append_iff.mp heq
    obtain ⟨between, r, after, rfl, hnone, hr, rfl⟩ := List.filterMap_eq_cons_iff.mp htail
    refine ⟨before ++ between, r, after, by simp, ?_⟩
    have hbetween : between.filterMap observed? = [] := List.filterMap_eq_nil_iff.mpr hnone
    rw [List.filterMap_append, hbetween, List.append_nil, List.filterMap_cons, hr]
    simpa using hmeets
  · rintro ⟨pre, r, rest, rfl, hmeets⟩
    obtain ⟨o, ho⟩ := Option.isSome_iff_exists.mp (hobs r (by simp))
    refine ⟨pre.filterMap observed?, o, rest.filterMap observed?, by simp [ho], ?_⟩
    simpa [ho] using hmeets

theorem equivocation_reported (records : List FloorLogRecord) (hobs : ∀ r ∈ records, IsObservation r) :
    (Contradictory records → ∀ permuted, records.Perm permuted → (foldOf permuted).conflicts ≠ []) ↔
      (Contradictory records → ∀ permuted, records.Perm permuted → EvidenceMet permuted) := by
  have hperm : ∀ permuted, records.Perm permuted → ((foldOf permuted).conflicts ≠ [] ↔ EvidenceMet permuted) :=
    fun permuted h => conflicts_iff fun r hr => hobs r (h.mem_iff.mpr hr)
  constructor
  · exact fun h hc permuted hp => (hperm permuted hp).mp (h hc permuted hp)
  · exact fun h hc permuted hp => (hperm permuted hp).mpr (h hc permuted hp)

/-! ## One lane alone -/

theorem apart_of_mem {records : List FloorLogRecord} {x y : Observation} (hx : x ∈ observationsOf records)
    (hy : y ∈ observationsOf records) (hone : ∀ r ∈ records, x ∈ observationsOf [r] → y ∉ observationsOf [r]) :
    ∃ pre r rest, records = pre ++ r :: rest ∧ (x ∈ observationsOf pre ∧ y ∈ observationsOf [r] ∨
      y ∈ observationsOf pre ∧ x ∈ observationsOf [r]) := by
  induction records using List.reverseRecOn with
  | nil => cases hx
  | append_singleton records r ih =>
    have hsplit : observationsOf (records ++ [r]) = observationsOf records ++ observationsOf [r] := by
      simp [observationsOf]
    rw [hsplit, List.mem_append] at hx hy
    rcases hx with hx | hx <;> rcases hy with hy | hy
    · obtain ⟨pre, r', rest, rfl, hapart⟩ := ih hx hy fun r' hr' => hone r' (List.mem_append_left _ hr')
      exact ⟨pre, r', rest ++ [r], by simp, hapart⟩
    · exact ⟨records, r, [], rfl, Or.inl ⟨hx, hy⟩⟩
    · exact ⟨records, r, [], rfl, Or.inr ⟨hy, hx⟩⟩
    · exact absurd hy (hone r (by simp) hx)

theorem hash_of_record {r : FloorLogRecord} {x y : Observation} (hx : x ∈ observationsOf [r]) (hy : y ∈ observationsOf [r])
    (hlane : x.lane = y.lane) : x.hashHex = y.hashHex := by
  unfold observationsOf at hx hy
  obtain ⟨o, ho, hx⟩ := List.mem_flatMap.mp hx
  obtain ⟨o', ho', hy⟩ := List.mem_flatMap.mp hy
  rw [List.filterMap_cons] at ho ho'
  cases hr : observed? r with
  | none => rw [hr] at ho; cases ho
  | some known =>
    rw [hr, List.filterMap_nil, List.mem_singleton] at ho ho'
    subst ho ho'
    have hlatest := mem_observations.mp ⟨x, hx, rfl, rfl⟩
    have hlatest' := mem_observations.mp ⟨y, hy, rfl, rfl⟩
    rw [hlane, hlatest', WithBot.coe_inj] at hlatest
    exact congrArg VersionedEvidence.hashHex hlatest.symm

theorem observationsOf_perm {records permuted : List FloorLogRecord} (h : records.Perm permuted) {x : Observation} :
    x ∈ observationsOf permuted ↔ x ∈ observationsOf records :=
  (((h.filterMap observed?).flatMap_right _).mem_iff).symm

section OneLane
variable {records : List FloorLogRecord} {lane : Lane}
  (hlive : ∀ x ∈ observationsOf records, ∀ id variableId, x.lane ≠ .deleted id variableId)
include hlive

theorem unhidden {x z : Observation} (hz : z ∈ observationsOf records) : x.lane.hiddenBy ≠ some z.lane := by
  have hnot := hlive z hz
  cases hl : x.lane with
  | value id variableId => exact fun h => hnot id variableId (Option.some.inj h).symm
  | live id variableId => exact fun h => hnot id variableId (Option.some.inj h).symm
  | _ => exact fun h => by cases h

theorem met_of_split {x y : Observation} (hx : x ∈ observationsOf records) (hy : y ∈ observationsOf records)
    (hlane : x.lane = y.lane) (hversion : x.version = y.version) (hhash : x.hashHex ≠ y.hashHex)
    (hlatest : ∀ z ∈ observationsOf records, z.lane = x.lane → z.version ≤ x.version) : EvidenceMet records := by
  obtain ⟨pre, r, rest, rfl, hapart⟩ := apart_of_mem hx hy fun r _ hx hy => hhash (hash_of_record hx hy hlane)
  have hpre : ∀ z ∈ observationsOf pre, z ∈ observationsOf (pre ++ r :: rest) := by
    intro z hz
    simp only [observationsOf, List.filterMap_append, List.flatMap_append, List.mem_append] at hz ⊢
    exact Or.inl hz
  refine ⟨pre, r, rest, rfl, ?_⟩
  rcases hapart with ⟨hx, hy⟩ | ⟨hy, hx⟩
  · exact ⟨y, hy, .hash hx hlane hversion hhash (fun z hz => hlatest z (hpre z hz)) fun z hz => unhidden hlive (hpre z hz)⟩
  · refine ⟨x, hx, .hash hy hlane.symm hversion.symm hhash.symm (fun z hz hz' => ?_) fun z hz => unhidden hlive (hpre z hz)⟩
    exact hversion ▸ hlatest z (hpre z hz) (hz'.trans hlane.symm)

/-- Where one lane alone is split, and nothing is deleted, every order reports it exactly where two hashes stand at the
lane's latest version. -/
theorem every_order_reports_iff (hobs : ∀ r ∈ records, IsObservation r)
    (hsplit : ∀ x ∈ observationsOf records, ∀ y ∈ observationsOf records, x.lane = y.lane → x.version = y.version →
      x.hashHex ≠ y.hashHex → x.lane = lane) :
    (∀ permuted, records.Perm permuted → (foldOf permuted).conflicts ≠ []) ↔
      ∃ x ∈ observationsOf records, ∃ y ∈ observationsOf records, x.lane = lane ∧ y.lane = lane ∧ x.version = y.version ∧
        x.hashHex ≠ y.hashHex ∧ ∀ z ∈ observationsOf records, z.lane = lane → z.version ≤ x.version := by
  have hmet : ∀ permuted, records.Perm permuted → ((foldOf permuted).conflicts ≠ [] ↔ EvidenceMet permuted) :=
    fun permuted h => conflicts_iff fun r hr => hobs r (h.mem_iff.mpr hr)
  -- In any order, what is met is a split of the lane.
  have hmeets : ∀ permuted pre r rest, records.Perm permuted → permuted = pre ++ r :: rest → ∀ y ∈ observationsOf [r],
      Meets (observationsOf pre) y → ∃ x ∈ observationsOf pre, x ∈ observationsOf records ∧ y ∈ observationsOf records ∧
        x.lane = lane ∧ y.lane = lane ∧ x.version = y.version ∧ x.hashHex ≠ y.hashHex ∧
        ∀ z ∈ observationsOf pre, z.lane = lane → z.version ≤ x.version := by
    intro permuted pre r rest hperm heq y hy h
    have hpre : ∀ z ∈ observationsOf pre, z ∈ observationsOf records := by
      intro z hz
      rw [← observationsOf_perm hperm, heq]
      simp only [observationsOf, List.filterMap_append, List.flatMap_append, List.mem_append] at hz ⊢
      exact Or.inl hz
    have hy' : y ∈ observationsOf records := by
      rw [← observationsOf_perm hperm, heq, show pre ++ r :: rest = pre ++ [r] ++ rest by simp]
      simp only [observationsOf, List.filterMap_append, List.flatMap_append, List.mem_append] at hy ⊢
      exact Or.inl (Or.inr hy)
    cases h with
    | hash hx hlane hversion hhash hlatest _ =>
      have hl := hsplit _ (hpre _ hx) y hy' hlane hversion hhash
      exact ⟨_, hx, hpre _ hx, hy', hl, hlane ▸ hl, hversion, hhash, fun z hz hz' => hlatest z hz (hz'.trans hl.symm)⟩
    | deletion _ hlane => obtain ⟨id, variableId, -, hdeleted⟩ := hlane; exact absurd hdeleted (hlive y hy' id variableId)
    | revival hx hlane => obtain ⟨id, variableId, hdeleted, -⟩ := hlane; exact absurd hdeleted (hlive _ (hpre _ hx) id variableId)
  constructor
  · intro h
    obtain ⟨pre, r, rest, heq, y, hy, hm⟩ := (hmet records (List.Perm.refl _)).mp (h records (List.Perm.refl _))
    obtain ⟨x, -, hx, -, hxlane, -⟩ := hmeets records pre r rest (List.Perm.refl _) heq y hy hm
    -- The latest observation of the lane, told first, covers every earlier split.
    let told := (observationsOf records).filter fun z => z.lane = lane
    have hne : told.argmax Observation.version ≠ none := by
      rw [Ne, List.argmax_eq_none]
      exact List.ne_nil_of_mem (List.mem_filter.mpr ⟨hx, by simpa using hxlane⟩)
    obtain ⟨m, hm⟩ := Option.ne_none_iff_exists'.mp hne
    obtain ⟨hmem, hmlane⟩ := List.mem_filter.mp (List.argmax_mem hm)
    have hlast : ∀ z ∈ observationsOf records, z.lane = lane → z.version ≤ m.version := fun z hz hz' =>
      List.le_of_mem_argmax (List.mem_filter.mpr ⟨hz, by simpa using hz'⟩) hm
    obtain ⟨o, ho, hmo⟩ := List.mem_flatMap.mp hmem
    obtain ⟨first, hfirst, hfo⟩ := List.mem_filterMap.mp ho
    obtain ⟨before, after, hrecords⟩ := List.append_of_mem hfirst
    have hperm : records.Perm (first :: (before ++ after)) := hrecords ▸ List.perm_middle
    obtain ⟨pre, r, rest, heq, y, hy, hmeet⟩ := (hmet _ hperm).mp (h _ hperm)
    obtain ⟨x, hxpre, hx, hy', hxlane, hylane, hversion, hhash, hlatest⟩ := hmeets _ pre r rest hperm heq y hy hmeet
    have hmpre : m ∈ observationsOf pre := by
      cases pre with
      | nil => cases hxpre
      | cons r' pre =>
        obtain ⟨rfl, -⟩ := List.cons.inj heq
        exact List.mem_flatMap.mpr ⟨o, List.mem_filterMap.mpr ⟨first, List.mem_cons_self, hfo⟩, hmo⟩
    refine ⟨x, hx, y, hy', hxlane, hylane, hversion, hhash, fun z hz hz' => (hlast z hz hz').trans ?_⟩
    exact hlatest m hmpre (by simpa using hmlane)
  · rintro ⟨x, hx, y, hy, hxlane, hylane, hversion, hhash, hlatest⟩ permuted hperm
    refine (hmet permuted hperm).mpr (met_of_split (fun z hz => hlive z ((observationsOf_perm hperm).mp hz))
      ((observationsOf_perm hperm).mpr hx) ((observationsOf_perm hperm).mpr hy) (hxlane.trans hylane.symm) hversion hhash
      fun z hz hz' => hlatest z ((observationsOf_perm hperm).mp hz) (hz'.trans hxlane))

end OneLane

/-- Two hashes for one head, after an earlier head. -/
def splitHeads : List FloorLogRecord :=
  [.head exampleHead, .head ⟨⟨2, two_safe⟩, digitHash 49 digit49_hash⟩, .head ⟨⟨2, two_safe⟩, digitHash 50 digit50_hash⟩]

theorem splitHeads_contradictory : Contradictory splitHeads := by
  unfold Contradictory
  decide

theorem splitHeads_split : (∀ x ∈ observationsOf splitHeads, x.lane = .chainHead ∧ x.version.val ≤ 2) ∧
    ∃ x ∈ observationsOf splitHeads, ∃ y ∈ observationsOf splitHeads, x.version.val = 2 ∧ y.version = x.version ∧
      x.hashHex ≠ y.hashHex := by decide

/-- Whatever the order, the two are reported. -/
theorem equivocation_reported_example :
    Contradictory splitHeads ∧ ∀ permuted, splitHeads.Perm permuted → (foldOf permuted).conflicts ≠ [] := by
  have hobs : ∀ r ∈ splitHeads, IsObservation r := by unfold IsObservation; decide
  refine ⟨splitHeads_contradictory, (equivocation_reported splitHeads hobs).mpr (fun _ permuted hperm => ?_)
    splitHeads_contradictory⟩
  obtain ⟨hheads, x, hx, y, hy, htwo, hversion, hhash⟩ := splitHeads_split
  refine met_of_split (fun z hz id variableId => ?_) ((observationsOf_perm hperm).mpr hx) ((observationsOf_perm hperm).mpr hy)
    ((hheads x hx).1.trans (hheads y hy).1.symm) hversion.symm hhash fun z hz _ => ?_
  · rw [(hheads z ((observationsOf_perm hperm).mp hz)).1]
    exact Lane.noConfusion
  · change z.version.val ≤ x.version.val
    rw [htwo]
    exact (hheads z ((observationsOf_perm hperm).mp hz)).2

/-- The same two heads, with the next head appended between them. -/
def coveredHeads : List FloorLogRecord :=
  [.head exampleHead, .head ⟨⟨2, two_safe⟩, digitHash 50 digit50_hash⟩,
    .head ⟨⟨1, one_safe⟩, digitHash 49 digit49_hash⟩]

theorem equivocation_covered : (∀ r ∈ coveredHeads, IsObservation r) ∧ Contradictory coveredHeads ∧
    (foldOf coveredHeads).conflicts = [] := by
  have hobs : ∀ r ∈ coveredHeads, IsObservation r := by unfold IsObservation; decide
  refine ⟨hobs, by unfold Contradictory; decide, ?_⟩
  rw [foldOf_eq hobs]
  decide

end Maruhi.Floor
