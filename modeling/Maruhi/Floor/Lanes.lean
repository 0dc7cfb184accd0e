import Maruhi.Floor.Order

/-!
# Lanes: what is compared with what

The join compares an observation with the latest of its lane. The live statements and the values of a
variable are two lanes that a deletion hides, and the deletions are a third.
-/

namespace Maruhi.Floor

inductive Lane
  | chainHead
  | environmentMeta (environmentId : EnvironmentId)
  | manifest (environmentId : EnvironmentId)
  | value (environmentId : EnvironmentId) (variableId : VariableId)
  | live (environmentId : EnvironmentId) (variableId : VariableId)
  | deleted (environmentId : EnvironmentId) (variableId : VariableId)
  deriving DecidableEq

/-- The lane whose observations hide a lane. -/
def Lane.hiddenBy : Lane → Option Lane
  | value environmentId variableId => some (deleted environmentId variableId)
  | live environmentId variableId => some (deleted environmentId variableId)
  | _ => none

def Observation.lane (o : Observation) : Lane :=
  match o.coordinate with
  | .chainHead => .chainHead
  | .environmentMeta environmentId => .environmentMeta environmentId
  | .manifest environmentId => .manifest environmentId
  | .value environmentId variableId => .value environmentId variableId
  | .variableMeta environmentId variableId =>
    if o.status = some .deleted then .deleted environmentId variableId else .live environmentId variableId

def Observation.evidence (o : Observation) : VersionedEvidence := ⟨o.version, o.hashHex⟩

/-! ## The latest of a lane -/

/-- A partial reading of a value that may be missing. -/
def lower {α β : Type} (f : α → WithBot β) (x : WithBot α) : WithBot β := (x.map f).unbotD ⊥

@[simp] theorem lower_bot {α β : Type} (f : α → WithBot β) : lower f ⊥ = ⊥ := rfl

@[simp] theorem lower_coe {α β : Type} (f : α → WithBot β) (a : α) : lower f ↑a = f a := rfl

theorem lower_sup {α β : Type} [SemilatticeSup α] [SemilatticeSup β] (f : α → WithBot β)
    (h : ∀ a b, f (a ⊔ b) = f a ⊔ f b) (x y : WithBot α) : lower f (x ⊔ y) = lower f x ⊔ lower f y := by
  cases x using WithBot.recBotCoe with
  | bot => simp
  | coe a =>
    cases y using WithBot.recBotCoe with
    | bot => simp
    | coe b => exact h a b

namespace VariableEvidence

def valuePart : VariableEvidence → WithBot VersionedEvidence
  | live value _ => value
  | deleted _ => ⊥

def livePart : VariableEvidence → WithBot VersionedEvidence
  | live _ side => side
  | deleted _ => ⊥

def deletedPart : VariableEvidence → WithBot VersionedEvidence
  | live _ _ => ⊥
  | deleted side => side

end VariableEvidence

namespace FloorEvidence

def variableAt (e : FloorEvidence) (environmentId : EnvironmentId) (variableId : VariableId) : WithBot VariableEvidence :=
  lower (fun environment => environment.variableFloors variableId) (e.2 environmentId)

def latest (e : FloorEvidence) : Lane → WithBot VersionedEvidence
  | .chainHead => e.1
  | .environmentMeta environmentId => lower EnvironmentEvidence.side (e.2 environmentId)
  | .manifest environmentId => lower EnvironmentEvidence.manifest (e.2 environmentId)
  | .value environmentId variableId => lower VariableEvidence.valuePart (variableAt e environmentId variableId)
  | .live environmentId variableId => lower VariableEvidence.livePart (variableAt e environmentId variableId)
  | .deleted environmentId variableId => lower VariableEvidence.deletedPart (variableAt e environmentId variableId)

/-- Something that hides the lane is known. -/
def Hidden (e : FloorEvidence) (lane : Lane) : Prop := ∃ l, lane.hiddenBy = some l ∧ latest e l ≠ ⊥

theorem variableAt_sup (a b : FloorEvidence) (environmentId : EnvironmentId) (variableId : VariableId) :
    variableAt (a ⊔ b) environmentId variableId = variableAt a environmentId variableId ⊔ variableAt b environmentId variableId :=
  lower_sup _ (fun _ _ => rfl) _ _

theorem latest_deleted_sup (a b : FloorEvidence) (environmentId : EnvironmentId) (variableId : VariableId) :
    latest (a ⊔ b) (.deleted environmentId variableId) =
      latest a (.deleted environmentId variableId) ⊔ latest b (.deleted environmentId variableId) := by
  unfold latest
  dsimp only
  rw [variableAt_sup]
  apply lower_sup
  intro x y
  cases x <;> cases y <;> simp [VariableEvidence.deletedPart]

theorem hidden_sup (a b : FloorEvidence) (lane : Lane) : Hidden (a ⊔ b) lane ↔ Hidden a lane ∨ Hidden b lane := by
  unfold Hidden
  cases lane <;> simp [Lane.hiddenBy, latest_deleted_sup] <;> tauto

theorem latest_of_hidden {e : FloorEvidence} {lane : Lane} (h : Hidden e lane) : latest e lane = ⊥ := by
  obtain ⟨l, hl, hne⟩ := h
  cases lane <;> cases hl
  all_goals
    rename_i environmentId variableId
    unfold latest at hne ⊢
    dsimp only at hne ⊢
    cases hv : variableAt e environmentId variableId using WithBot.recBotCoe with
    | bot => rfl
    | coe variableEvidence =>
      rw [hv] at hne
      cases variableEvidence with
      | live value side => exact absurd rfl hne
      | deleted side => rfl

theorem lower_live_sup (f : VariableEvidence → WithBot VersionedEvidence)
    (h : ∀ v s v' s', f (.live v s ⊔ .live v' s') = f (.live v s) ⊔ f (.live v' s'))
    {x y : WithBot VariableEvidence} (hx : lower VariableEvidence.deletedPart x = ⊥)
    (hy : lower VariableEvidence.deletedPart y = ⊥) : lower f (x ⊔ y) = lower f x ⊔ lower f y := by
  cases x using WithBot.recBotCoe with
  | bot => simp
  | coe a =>
    cases y using WithBot.recBotCoe with
    | bot => simp
    | coe b =>
      cases a with
      | deleted s => exact absurd hx WithBot.coe_ne_bot
      | live v s =>
        cases b with
        | deleted s' => exact absurd hy WithBot.coe_ne_bot
        | live v' s' => exact h v s v' s'

theorem latest_sup {a b : FloorEvidence} {lane : Lane} (ha : ¬ Hidden a lane) (hb : ¬ Hidden b lane) :
    latest (a ⊔ b) lane = latest a lane ⊔ latest b lane := by
  cases lane with
  | chainHead => rfl
  | environmentMeta id => exact lower_sup _ (fun _ _ => rfl) _ _
  | manifest id => exact lower_sup _ (fun _ _ => rfl) _ _
  | deleted id variableId => exact latest_deleted_sup a b id variableId
  | value id variableId =>
    have ha' : latest a (.deleted id variableId) = ⊥ := by simpa [Hidden, Lane.hiddenBy] using ha
    have hb' : latest b (.deleted id variableId) = ⊥ := by simpa [Hidden, Lane.hiddenBy] using hb
    unfold latest
    dsimp only
    rw [variableAt_sup]
    exact lower_live_sup _ (fun _ _ _ _ => rfl) ha' hb'
  | live id variableId =>
    have ha' : latest a (.deleted id variableId) = ⊥ := by simpa [Hidden, Lane.hiddenBy] using ha
    have hb' : latest b (.deleted id variableId) = ⊥ := by simpa [Hidden, Lane.hiddenBy] using hb
    unfold latest
    dsimp only
    rw [variableAt_sup]
    exact lower_live_sup _ (fun _ _ _ _ => rfl) ha' hb'

theorem latest_bot (lane : Lane) : latest ⊥ lane = ⊥ := by cases lane <;> rfl

theorem hidden_joined (l : List FloorEvidence) (lane : Lane) : Hidden (joined l) lane ↔ ∃ x ∈ l, Hidden x lane := by
  induction l using List.reverseRecOn with
  | nil => simp [Hidden, latest_bot]
  | append_singleton l a ih =>
    rw [joined_snoc, hidden_sup, ih]
    simp only [List.mem_append, List.mem_singleton]
    constructor
    · rintro (⟨x, hx, h⟩ | h)
      · exact ⟨x, Or.inl hx, h⟩
      · exact ⟨a, Or.inr rfl, h⟩
    · rintro ⟨x, hx | rfl, h⟩
      · exact Or.inl ⟨x, hx, h⟩
      · exact Or.inr h

theorem latest_joined {l : List FloorEvidence} {lane : Lane} (h : ∀ x ∈ l, ¬ Hidden x lane) :
    latest (joined l) lane = joined (l.map fun x => latest x lane) := by
  induction l using List.reverseRecOn with
  | nil => exact latest_bot lane
  | append_singleton l a ih =>
    have hl : ¬ Hidden (joined l) lane := by
      rw [hidden_joined]
      rintro ⟨x, hx, hh⟩
      exact h x (by simp [hx]) hh
    rw [joined_snoc, latest_sup hl (h a (by simp)), ih fun x hx => h x (by simp [hx]), List.map_append,
      List.map_singleton, joined_snoc]

theorem latest_joined_some {l : List FloorEvidence} {lane : Lane} {e : VersionedEvidence}
    (h : latest (joined l) lane = ↑e) :
    (∃ x ∈ l, latest x lane = ↑e) ∧ (∀ x ∈ l, latest x lane ≤ ↑e) ∧ ∀ x ∈ l, ¬ Hidden x lane := by
  have hnot : ∀ x ∈ l, ¬ Hidden x lane := by
    intro x hx hh
    have := latest_of_hidden ((hidden_joined l lane).mpr ⟨x, hx, hh⟩)
    rw [h] at this
    cases this
  rw [latest_joined hnot] at h
  obtain ⟨x, hx, heq⟩ := List.mem_map.mp (joined_mem _ _ h)
  refine ⟨⟨x, hx, heq⟩, fun y hy => ?_, hnot⟩
  rw [← h]
  exact le_joined (List.mem_map_of_mem hy)

theorem exists_latest_joined {l : List FloorEvidence} {lane : Lane} (h : ∀ x ∈ l, ¬ Hidden x lane) {x : FloorEvidence}
    (hx : x ∈ l) {e : VersionedEvidence} (he : latest x lane = ↑e) : ∃ e' : VersionedEvidence, latest (joined l) lane = ↑e' ∧ e ≤ e' := by
  have hle : (e : WithBot VersionedEvidence) ≤ latest (joined l) lane := by
    rw [latest_joined h, ← he]
    exact le_joined (List.mem_map_of_mem hx)
  cases hj : latest (joined l) lane using WithBot.recBotCoe with
  | bot =>
    rw [hj] at hle
    exact absurd hle (WithBot.not_coe_le_bot e)
  | coe e' =>
    rw [hj] at hle
    exact ⟨e', rfl, WithBot.coe_le_coe.mp hle⟩

end FloorEvidence

/-! ## An observation record has at most one observation in a lane -/

theorem mem_variableObservations {id : EnvironmentId} {variableId : VariableId} {floor : VariableFloor} {lane : Lane}
    {e : VersionedEvidence} :
    (∃ y ∈ variableObservations id variableId floor, y.lane = lane ∧ y.evidence = e) ↔
      (lane = .value id variableId ∧ floor.evidence.valuePart = ↑e) ∨
        (lane = .live id variableId ∧ floor.evidence.livePart = ↑e) ∨
        (lane = .deleted id variableId ∧ floor.evidence.deletedPart = ↑e) := by
  cases floor <;>
    simp [variableObservations, VariableFloor.evidence, VariableEvidence.valuePart, VariableEvidence.livePart,
      VariableEvidence.deletedPart, valueObservation, metaObservation, Observation.lane, Observation.evidence,
      ValueSide.evidence, MetaSide.evidence, eq_comm]

theorem mem_environmentObservations {id : EnvironmentId} {floor : EnvironmentFloor} {lane : Lane} {e : VersionedEvidence} :
    (∃ y ∈ environmentObservations id floor, y.lane = lane ∧ y.evidence = e) ↔
      (lane = .environmentMeta id ∧ floor.evidence.side = ↑e) ∨ (lane = .manifest id ∧ floor.evidence.manifest = ↑e) ∨
        ∃ variableId variableFloor, floor.variableFloors.get? variableId = some variableFloor ∧
          ∃ y ∈ variableObservations id variableId variableFloor, y.lane = lane ∧ y.evidence = e := by
  have hside : (∃ y ∈ floor.side.toList.map fun side => (⟨.environmentMeta id, side.metaSigHashHex.1,
      side.metaVersion.toNatural, none, none⟩ : Observation), y.lane = lane ∧ y.evidence = e) ↔
      lane = .environmentMeta id ∧ floor.evidence.side = ↑e := by
    unfold EnvironmentFloor.evidence
    cases floor.side <;> simp [Observation.lane, Observation.evidence, MetaSide.evidence, eq_comm]
  have hmanifest : (∃ y ∈ floor.manifest.toList.map (manifestObservation id), y.lane = lane ∧ y.evidence = e) ↔
      lane = .manifest id ∧ floor.evidence.manifest = ↑e := by
    unfold EnvironmentFloor.evidence
    cases floor.manifest <;>
      simp [manifestObservation, Observation.lane, Observation.evidence, ManifestFloor.evidence, eq_comm]
  have hvariables : (∃ y ∈ floor.variableFloors.entries.flatMap fun e => variableObservations id e.1 e.2,
      y.lane = lane ∧ y.evidence = e) ↔ ∃ variableId variableFloor,
        floor.variableFloors.get? variableId = some variableFloor ∧
          ∃ y ∈ variableObservations id variableId variableFloor, y.lane = lane ∧ y.evidence = e := by
    simp only [List.mem_flatMap, ← Record.mem_entries]
    constructor
    · rintro ⟨y, ⟨pair, hpair, hy⟩, h⟩
      exact ⟨pair.1, pair.2, hpair, y, hy, h⟩
    · rintro ⟨variableId, variableFloor, hpair, y, hy, h⟩
      exact ⟨y, ⟨(variableId, variableFloor), hpair, hy⟩, h⟩
  rw [← hside, ← hmanifest, ← hvariables]
  unfold environmentObservations
  simp only [List.mem_append, or_and_right, exists_or, or_assoc]

theorem lower_variableFloors {f : VariableEvidence → WithBot VersionedEvidence} {id id' : EnvironmentId}
    {floor : EnvironmentFloor} {variableId : VariableId} {e : VersionedEvidence} :
    (∃ variableFloor, floor.variableFloors.get? variableId = some variableFloor ∧ id' = id ∧
        f variableFloor.evidence = ↑e) ↔
      lower f (lower (fun environment => environment.variableFloors variableId)
        (if id' = id then (floor.evidence : WithBot EnvironmentEvidence) else ⊥)) = ↑e := by
  by_cases hid : id' = id
  · simp only [hid, true_and, if_true, lower_coe]
    change _ ↔ lower f (asBot VariableFloor.evidence (floor.variableFloors.get? variableId)) = ↑e
    cases floor.variableFloors.get? variableId <;> simp
  · simp [hid]

theorem mem_observations {o : Observed} {lane : Lane} {e : VersionedEvidence} :
    (∃ y ∈ o.observations, y.lane = lane ∧ y.evidence = e) ↔ o.evidence.latest lane = ↑e := by
  obtain ⟨head, environment⟩ := o
  have hhead : (∃ y ∈ [(⟨.chainHead, head.hashHex.1, head.seq.toNatural, none, none⟩ : Observation)],
      y.lane = lane ∧ y.evidence = e) ↔ lane = .chainHead ∧ head.evidence = e := by
    simp [Observation.lane, Observation.evidence, ChainHeadFloor.evidence, eq_comm]
  cases environment with
  | none =>
    refine hhead.trans ?_
    cases lane <;> simp [Observed.evidence, FloorEvidence.latest, FloorEvidence.variableAt]
  | some pair =>
    obtain ⟨id, floor⟩ := pair
    have hsplit : (∃ y ∈ Observed.observations ⟨head, some (id, floor)⟩, y.lane = lane ∧ y.evidence = e) ↔
        (lane = .chainHead ∧ head.evidence = e) ∨
          ∃ y ∈ environmentObservations id floor, y.lane = lane ∧ y.evidence = e := by
      rw [← hhead]
      simp [Observed.observations]
    rw [hsplit, mem_environmentObservations]
    simp only [mem_variableObservations]
    cases lane with
    | chainHead => simp [Observed.evidence, FloorEvidence.latest]
    | environmentMeta id' => by_cases hid : id' = id <;> simp [Observed.evidence, FloorEvidence.latest, hid]
    | manifest id' => by_cases hid : id' = id <;> simp [Observed.evidence, FloorEvidence.latest, hid]
    | value id' variableId => simpa [Observed.evidence, FloorEvidence.latest, FloorEvidence.variableAt] using lower_variableFloors
    | live id' variableId => simpa [Observed.evidence, FloorEvidence.latest, FloorEvidence.variableAt] using lower_variableFloors
    | deleted id' variableId =>
      simpa [Observed.evidence, FloorEvidence.latest, FloorEvidence.variableAt] using lower_variableFloors

end Maruhi.Floor
