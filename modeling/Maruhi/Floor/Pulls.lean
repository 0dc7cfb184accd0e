import Maruhi.Floor.Accept

/-!
# A run of pulls

A client checks each pull against its floor and commits what it accepts. Nothing that one accepted pull
established is taken back by a later one.
-/

open Text

namespace Maruhi.Floor

/-! ## Signed contents -/

structure SignedStatement where
  status : VariableStatus
  metaVersion : PositiveInt
  chainHeadSeq : Natural
  chainHeadHashHex : JsString
  authorUserId : JsString

structure SignedValue where
  version : PositiveInt
  epoch : PositiveInt
  chainHeadSeq : Natural
  chainHeadHashHex : JsString
  writerUserId : JsString

structure SignedManifest where
  manifestVersion : PositiveInt
  epoch : PositiveInt
  variablesDigestHex : JsString
  envMetaVersion : PositiveInt
  envMetaSigHashHex : JsString
  prevManifestSigHashHex : JsString
  chainHeadSeq : Natural
  chainHeadHashHex : JsString
  issuerUserId : JsString

def VerifiedMetaEvidence.signed (evidence : VerifiedMetaEvidence) : SignedStatement :=
  ⟨evidence.status, evidence.metaVersion, evidence.chainHeadSeq, evidence.chainHeadHashHex, evidence.authorUserId⟩

def VerifiedPulledValue.signed (value : VerifiedPulledValue) : SignedValue :=
  ⟨value.version, value.epoch, value.valueChainHeadSeq, value.valueChainHeadHashHex, value.writerUserId⟩

def VerifiedManifest.signed (manifest : VerifiedManifest) : SignedManifest :=
  ⟨manifest.manifestVersion, manifest.epoch, manifest.variablesDigestHex, manifest.envMetaVersion,
    manifest.envMetaSigHashHex, manifest.prevManifestSigHashHex, manifest.chainHeadSeq, manifest.chainHeadHashHex,
    manifest.issuerUserId⟩

/-- What was signed, as a function of its hash. -/
structure SignedContents where
  statement : Option VariableId → HashHex → SignedStatement
  value : VariableId → HashHex → SignedValue
  manifest : HashHex → SignedManifest

namespace SignedContents

/-- Each hash of the pull is the hash of these contents. -/
structure Signs (contents : SignedContents) (snapshot : VerifiedPullSnapshot) : Prop where
  environment : contents.statement none snapshot.environment.metaSigHashHex = snapshot.environment.signed
  values : ∀ value ∈ snapshot.values, contents.value value.variableId value.signedBytesHashHex = value.signed
  metas : ∀ value ∈ snapshot.values,
    contents.statement (some value.variableId) value.metaSignedBytesHashHex = (metaEvidenceOf value).signed
  declared : ∀ statement ∈ snapshot.declared,
    contents.statement (some statement.variableId) statement.metaSigHashHex = statement.signed
  tombstones : ∀ tombstone ∈ snapshot.tombstones,
    contents.statement (some tombstone.variableId) tombstone.metaSigHashHex = tombstone.signed
  manifest : contents.manifest snapshot.manifest.signedBytesHashHex = snapshot.manifest.signed

/-- A variable's floor records what its hashes are the hashes of. -/
def RecordsVariable (contents : SignedContents) (id : VariableId) : VariableFloor → Prop
  | .active value side =>
    (contents.value id value.valueSigHashHex).version = value.version ∧
      (contents.value id value.valueSigHashHex).epoch = value.epoch ∧
      (contents.statement (some id) side.metaSigHashHex).status ≠ .deleted
  | .declared side => (contents.statement (some id) side.metaSigHashHex).status ≠ .deleted
  | .deleted side => (contents.statement (some id) side.metaSigHashHex).status = .deleted

/-- A floor records what its hashes are the hashes of. -/
structure Records (contents : SignedContents) (floor : EnvironmentFloor) : Prop where
  recorded : ∀ id f, floor.variableFloors.get? id = some f → contents.RecordsVariable id f
  manifest : ∀ m, floor.manifest = some m →
    (contents.manifest m.manifestSigHashHex).manifestVersion = m.manifestVersion ∧
      (contents.manifest m.manifestSigHashHex).epoch = m.epoch

theorem Signs.records {contents : SignedContents} {snapshot : VerifiedPullSnapshot} (h : contents.Signs snapshot)
    (hd : snapshot.Distinct) (epoch : Natural) : contents.Records (buildEnvironmentFloor epoch snapshot) := by
  refine ⟨fun id f hf => ?_, fun m hm => ?_⟩
  · have hmem := (mem_floors hd epoch (id, f)).mp hf
    unfold VerifiedPullSnapshot.floors at hmem
    simp only [List.mem_append, List.mem_map, Prod.mk.injEq] at hmem
    rcases hmem with (⟨value, hvalue, rfl, rfl⟩ | ⟨statement, hstatement, rfl, rfl⟩) | ⟨tombstone, htombstone, rfl, rfl⟩
    · have hv := h.values value hvalue
      have hm := h.metas value hvalue
      refine ⟨congrArg SignedValue.version hv, congrArg SignedValue.epoch hv, ?_⟩
      rw [hm]
      simp [metaEvidenceOf, VerifiedMetaEvidence.signed]
    · have hs := h.declared statement hstatement
      change (contents.statement _ statement.metaSigHashHex).status ≠ _
      rw [hs]
      exact statement.live
    · have ht := h.tombstones tombstone htombstone
      change (contents.statement _ tombstone.metaSigHashHex).status = _
      rw [ht]
      exact tombstone.deleted
  · cases hm
    exact ⟨congrArg SignedManifest.manifestVersion h.manifest, congrArg SignedManifest.epoch h.manifest⟩

end SignedContents

/-! ## From one floor to the next -/

/-- The same value, or a newer one of no earlier epoch. -/
def Renews (pullEpoch : Natural) (u v : ValueSide) : Prop :=
  u = v ∨ u.version < v.version ∧ u.epoch ≤ v.epoch ∧ pullEpoch ≤ v.epoch.toNatural

/-- What a variable's floor can become once the environment was pulled at an epoch. -/
def Outlives (pullEpoch : Natural) : VariableFloor → VariableFloor → Prop
  | .active u s, .active v t => Renews pullEpoch u v ∧ Advances s.evidence t.evidence
  | .active _ s, .deleted t => Advances s.evidence t.evidence
  | .declared s, .active _ t => Advances s.evidence t.evidence
  | .declared s, .declared t => Advances s.evidence t.evidence
  | .declared s, .deleted t => Advances s.evidence t.evidence
  | .deleted s, .deleted t => s = t
  | _, _ => False

/-- The same manifest, or a newer one of no earlier epoch. -/
def Reissues (m n : ManifestFloor) : Prop := m = n ∨ m.manifestVersion < n.manifestVersion ∧ m.epoch ≤ n.epoch

/-- What a floor established at an epoch can become. -/
structure Succeeds (pullEpoch : Natural) (first later : EnvironmentFloor) : Prop where
  side : ∀ s, first.side = some s → ∃ t, later.side = some t ∧ Advances s.evidence t.evidence
  manifest : ∀ m, first.manifest = some m → ∃ n, later.manifest = some n ∧ Reissues m n
  outlived : ∀ id f, first.variableFloors.get? id = some f →
    ∃ g, later.variableFloors.get? id = some g ∧ Outlives pullEpoch f g

theorem Renews.trans {p q : Natural} {u v w : ValueSide} (h : Renews p u v) (h' : Renews q v w) (hpq : p ≤ q) :
    Renews p u w := by
  rcases h with rfl | ⟨hv, he, hp⟩
  · exact h'.imp_right fun h' => ⟨h'.1, h'.2.1, hpq.trans h'.2.2⟩
  · rcases h' with rfl | ⟨hv', he', -⟩
    · exact Or.inr ⟨hv, he, hp⟩
    · exact Or.inr ⟨hv.trans hv', he.trans he', le_trans hp he'⟩

theorem Reissues.trans {m n o : ManifestFloor} (h : Reissues m n) (h' : Reissues n o) : Reissues m o := by
  rcases h with rfl | ⟨hv, he⟩
  · exact h'
  · rcases h' with rfl | ⟨hv', he'⟩
    · exact Or.inr ⟨hv, he⟩
    · exact Or.inr ⟨hv.trans hv', he.trans he'⟩

theorem Outlives.trans {p q : Natural} {f g h : VariableFloor} (hfg : Outlives p f g) (hgh : Outlives q g h)
    (hpq : p ≤ q) : Outlives p f h := by
  cases f <;> cases g <;> cases h <;> simp only [Outlives] at hfg hgh ⊢
  · exact ⟨hfg.1.trans hgh.1 hpq, hfg.2.trans hgh.2⟩
  · exact hfg.2.trans hgh
  · exact hgh ▸ hfg
  · exact hfg.trans hgh.2
  · exact hfg.trans hgh
  · exact hfg.trans hgh
  · exact hfg.trans hgh
  · exact hfg.trans hgh
  · exact hgh ▸ hfg
  · exact hfg.trans hgh

theorem Succeeds.trans {p q : Natural} {a b c : EnvironmentFloor} (h : Succeeds p a b) (h' : Succeeds q b c)
    (hpq : p ≤ q) : Succeeds p a c := by
  refine ⟨fun s hs => ?_, fun m hm => ?_, fun id f hf => ?_⟩
  · obtain ⟨t, ht, hst⟩ := h.side s hs
    obtain ⟨r, hr, htr⟩ := h'.side t ht
    exact ⟨r, hr, hst.trans htr⟩
  · obtain ⟨n, hn, hmn⟩ := h.manifest m hm
    obtain ⟨o, ho, hno⟩ := h'.manifest n hn
    exact ⟨o, ho, hmn.trans hno⟩
  · obtain ⟨g, hg, hfg⟩ := h.outlived id f hf
    obtain ⟨k, hk, hgk⟩ := h'.outlived id g hg
    exact ⟨k, hk, hfg.trans hgk hpq⟩

theorem Outlives.refl (p : Natural) (f : VariableFloor) : Outlives p f f := by
  cases f <;> simp [Outlives, Renews, Advances.refl]

/-- A floor holds what a pull established. -/
structure Established (floor incoming : EnvironmentFloor) : Prop where
  side : floor.side = incoming.side
  manifest : floor.manifest = incoming.manifest
  floors : ∀ id, floor.variableFloors.get? id = incoming.variableFloors.get? id
  pullEpoch : incoming.pullEpoch ≤ floor.pullEpoch

namespace Established

variable {floor incoming : EnvironmentFloor} (h : Established floor incoming)

include h

theorem succeeds (p : Natural) : Succeeds p incoming floor :=
  ⟨fun s hs => ⟨s, h.side.trans hs, Advances.refl _⟩, fun m hm => ⟨m, h.manifest.trans hm, Or.inl rfl⟩,
    fun id f hf => ⟨f, (h.floors id).trans hf, Outlives.refl p f⟩⟩

theorem accepts : Accepts floor incoming := by
  refine ⟨fun s t hs ht => ?_, fun id f hf => ?_, fun m n hm hn => ?_, fun n hn hnewer => ?_, fun id v t hv hnewer => ?_⟩
  · rw [h.side, ht] at hs
    cases hs
    exact Advances.refl _
  · refine ⟨f, (h.floors id).symm.trans hf, ?_⟩
    cases f <;> simp [Follows, Advances.refl]
  · rw [h.manifest, hn] at hm
    cases hm
    exact Advances.refl _
  · exact absurd (hnewer n (h.manifest.trans hn)) (lt_irrefl _)
  · exact absurd (hnewer v t ((h.floors id).trans hv)) (lt_irrefl _)

theorem records {contents : SignedContents} (hr : contents.Records incoming) : contents.Records floor :=
  ⟨fun id f hf => hr.recorded id f ((h.floors id).symm.trans hf), fun m hm => hr.manifest m (h.manifest.symm.trans hm)⟩

end Established

section Step
variable {contents : SignedContents} {floor incoming : EnvironmentFloor} (hfloor : contents.Records floor)
  (hincoming : contents.Records incoming) (h : Accepts floor incoming)

include hfloor hincoming h

/-- At one version the contents make the values one. -/
theorem accepted_value {id : VariableId} {u v : ValueSide} {s t : MetaSide}
    (hu : floor.variableFloors.get? id = some (.active u s)) (hv : incoming.variableFloors.get? id = some (.active v t))
    (hadv : Advances u.evidence v.evidence) (hepoch : u.version < v.version → u.epoch ≤ v.epoch) :
    Renews floor.pullEpoch u v := by
  have hle : u.version ≤ v.version := hadv.1
  rcases lt_or_eq_of_le hle with hlt | heq
  · refine Or.inr ⟨hlt, hepoch hlt, h.valueEpoch id v t hv fun u' s' hu' => ?_⟩
    rw [hu] at hu'
    cases hu'
    exact hlt
  · left
    have hhash : u.valueSigHashHex = v.valueSigHashHex := Subtype.ext (hadv.2 ((toNatural_inj _ _).mpr heq))
    have hue := (hfloor.recorded id _ hu).2.1
    have hve := (hincoming.recorded id _ hv).2.1
    cases u
    cases v
    simp only [ValueSide.mk.injEq] at hhash heq hue hve ⊢
    subst hhash heq
    exact ⟨rfl, hue.symm.trans hve, rfl⟩

theorem accepted_manifest {m n : ManifestFloor} (hm : floor.manifest = some m) (hn : incoming.manifest = some n) :
    Reissues m n := by
  have hadv := h.manifest m n hm hn
  have hle : m.manifestVersion ≤ n.manifestVersion := hadv.1
  rcases lt_or_eq_of_le hle with hlt | heq
  · refine Or.inr ⟨hlt, ?_⟩
    have hbase := h.manifestEpoch n hn fun m' hm' => by
      rw [hm] at hm'
      cases hm'
      exact hlt
    have hmle : m.epoch.toNatural ≤ manifestBaseline floor := by
      unfold manifestBaseline
      rw [hm]
      exact le_max_right _ _
    exact hmle.trans hbase
  · left
    have hhash : m.manifestSigHashHex = n.manifestSigHashHex := Subtype.ext (hadv.2 ((toNatural_inj _ _).mpr heq))
    have hme := (hfloor.manifest m hm).2
    have hne := (hincoming.manifest n hn).2
    cases m
    cases n
    simp only [ManifestFloor.mk.injEq] at hhash heq hme hne ⊢
    subst hhash heq
    exact ⟨rfl, hme.symm.trans hne, rfl⟩

theorem accepted_succeeds (hside : incoming.side.isSome) (hmanifest : incoming.manifest.isSome) :
    Succeeds floor.pullEpoch floor incoming := by
  obtain ⟨t, ht⟩ := Option.isSome_iff_exists.mp hside
  obtain ⟨n, hn⟩ := Option.isSome_iff_exists.mp hmanifest
  refine ⟨fun s hs => ⟨t, ht, h.side s t hs ht⟩,
    fun m hm => ⟨n, hn, accepted_manifest hfloor hincoming h hm hn⟩, fun id f hf => ?_⟩
  obtain ⟨g, hg, hfg⟩ := h.followed id f hf
  refine ⟨g, hg, ?_⟩
  cases f <;> cases g <;> simp only [Follows, Outlives] at hfg ⊢
  · exact ⟨accepted_value hfloor hincoming h hf hg hfg.1 hfg.2.1, hfg.2.2⟩
  all_goals exact hfg

theorem joinVariableFloor_accepted (environmentId : EnvironmentId) {id : VariableId} {g : VariableFloor}
    (hg : incoming.variableFloors.get? id = some g) :
    joinVariableFloor environmentId id (floor.variableFloors.get? id) g = (g, []) := by
  cases hf : floor.variableFloors.get? id with
  | none => rfl
  | some f =>
    obtain ⟨g', hg', hfg⟩ := h.followed id f hf
    rw [hg] at hg'
    cases hg'
    have hside : ∀ s t : MetaSide, Advances s.evidence t.evidence →
        joinMetaSide environmentId (some id) s t = (t, []) := fun s t hst =>
      joinVersioned_advances _ hst metaSide_evidence_inj
    -- a live statement and a deletion at one version have one hash, and the contents differ
    have hdeleted : ∀ s t : MetaSide, (contents.statement (some id) s.metaSigHashHex).status ≠ .deleted →
        (contents.statement (some id) t.metaSigHashHex).status = .deleted → Advances s.evidence t.evidence →
          joinDeletedWithLive environmentId id t s = (.deleted t, []) := by
      intro s t hs ht hst
      have hle : s.metaVersion ≤ t.metaVersion := hst.1
      have hne : s.metaVersion ≠ t.metaVersion := by
        intro heq
        have hhash : s.metaSigHashHex = t.metaSigHashHex := Subtype.ext (hst.2 ((toNatural_inj _ _).mpr heq))
        exact hs (hhash ▸ ht)
      simp [joinDeletedWithLive, not_lt.mpr hle, hne]
    have hrf := hfloor.recorded id f hf
    have hrg := hincoming.recorded id g hg
    cases f with
    | active u s =>
      cases g with
      | active v t =>
        have hvalue : joinVersioned ValueSide.evidence u v (conflictOf .value (some environmentId) (some id)) = (v, []) := by
          apply joinVersioned_advances _ hfg.1
          intro heq
          rcases accepted_value hfloor hincoming h hf hg hfg.1 hfg.2.1 with rfl | ⟨hlt, -⟩
          · rfl
          · exact absurd ((toNatural_inj _ _).mp (congrArg VersionedEvidence.version heq)) (ne_of_lt hlt)
        simp [joinVariableFloor, hside s t hfg.2.2, hvalue]
      | declared t => exact False.elim hfg
      | deleted t => exact hdeleted s t hrf.2.2 hrg hfg
    | declared s =>
      cases g with
      | active v t => simp [joinVariableFloor, hside s t hfg]
      | declared t => simp [joinVariableFloor, hside s t hfg]
      | deleted t => exact hdeleted s t hrf hrg hfg
    | deleted s =>
      cases g with
      | active v t => exact False.elim hfg
      | declared t => exact False.elim hfg
      | deleted t => simp [joinVariableFloor, hside s t (hfg ▸ Advances.refl _)]

theorem joinEnvironmentFloor_accepted (environmentId : EnvironmentId) (hside : incoming.side.isSome)
    (hmanifest : incoming.manifest.isSome) :
    (joinEnvironmentFloor environmentId (some floor) incoming).2 = [] ∧
      Established (joinEnvironmentFloor environmentId (some floor) incoming).1 incoming := by
  obtain ⟨t, ht⟩ := Option.isSome_iff_exists.mp hside
  obtain ⟨n, hn⟩ := Option.isSome_iff_exists.mp hmanifest
  have hjside : joinEnvironmentSide environmentId floor.side incoming.side = (incoming.side, []) := by
    rw [ht]
    cases hs : floor.side with
    | none => rfl
    | some s =>
      have hjoin : joinMetaSide environmentId none s t = (t, []) :=
        joinVersioned_advances _ (h.side s t hs ht) metaSide_evidence_inj
      simp [joinEnvironmentSide, hjoin]
  have hjmanifest : joinManifestFloor environmentId floor.manifest incoming.manifest = (incoming.manifest, []) := by
    rw [hn]
    cases hm : floor.manifest with
    | none => rfl
    | some m =>
      have hjoin : joinVersioned ManifestFloor.evidence m n (conflictOf .manifest (some environmentId) none) = (n, []) := by
        apply joinVersioned_advances _ (h.manifest m n hm hn)
        intro heq
        rcases accepted_manifest hfloor hincoming h hm hn with rfl | ⟨hlt, -⟩
        · rfl
        · exact absurd ((toNatural_inj _ _).mp (congrArg VersionedEvidence.version heq)) (ne_of_lt hlt)
      simp [joinManifestFloor, hjoin]
  have hget : ∀ e ∈ incoming.variableFloors.entries,
      joinVariableFloor environmentId e.1 (floor.variableFloors.get? e.1) e.2 = (e.2, []) := fun e he =>
    joinVariableFloor_accepted hfloor hincoming h environmentId ((Record.mem_entries _ _ _).mp he)
  have hconflicts : (joinVariables environmentId floor.variableFloors incoming.variableFloors.entries
      (floor.variableFloors, [])).2 = [] := by
    rw [joinVariables_conflicts, List.nil_append, List.flatMap_eq_nil_iff]
    intro e he
    rw [hget e he]
  unfold joinEnvironmentFloor
  dsimp only
  rw [hjside, hjmanifest, hconflicts]
  refine ⟨rfl, rfl, rfl, fun id => ?_, le_max_right _ _⟩
  dsimp only
  rw [joinVariables_get? _ _ _ incoming.variableFloors.nodup]
  change ((incoming.variableFloors.get? id).map _).or _ = incoming.variableFloors.get? id
  cases hg : incoming.variableFloors.get? id with
  | some g => simp [joinVariableFloor_accepted hfloor hincoming h environmentId hg]
  | none =>
    rw [Option.map_none, Option.none_or]
    cases hf : floor.variableFloors.get? id with
    | none => rfl
    | some f =>
      obtain ⟨g, hg', -⟩ := h.followed id f hf
      rw [hg] at hg'
      cases hg'

end Step

/-! ## A client's run -/

/-- A pull: the epoch that the chain gives then, and what was verified. -/
structure Pull where
  chainCurrentEpoch : Natural
  snapshot : VerifiedPullSnapshot

def Pull.floor (pull : Pull) : EnvironmentFloor := buildEnvironmentFloor pull.chainCurrentEpoch pull.snapshot

def commitPull (environmentId : EnvironmentId) (floor : Option EnvironmentFloor) (pull : Pull) :
    EnvironmentFloor × List FloorConflict := joinEnvironmentFloor environmentId floor pull.floor

/-- The client commits a pull that the check accepts, and refuses any other. -/
def pullStep (environmentId : EnvironmentId) (floor : Option EnvironmentFloor) (pull : Pull) : Option EnvironmentFloor :=
  if checkEnvironmentPull floor pull.snapshot = none then some (commitPull environmentId floor pull).1 else floor

def floorAfter (environmentId : EnvironmentId) (floor : Option EnvironmentFloor) (pulls : List Pull) :
    Option EnvironmentFloor := pulls.foldl (pullStep environmentId) floor

section Run
variable {environmentId : EnvironmentId} {contents : SignedContents}

/-- The ids of a pull are distinct, and its hashes are hashes of these contents. -/
structure Verified (contents : SignedContents) (pull : Pull) : Prop where
  distinct : pull.snapshot.Distinct
  signed : contents.Signs pull.snapshot

def Recorded (contents : SignedContents) (floor : Option EnvironmentFloor) : Prop :=
  ∀ f, floor = some f → contents.Records f

theorem Verified.records {pull : Pull} (h : Verified contents pull) : contents.Records pull.floor :=
  h.signed.records h.distinct pull.chainCurrentEpoch

variable (environmentId) in
theorem commit_accepted {floor : Option EnvironmentFloor} {pull : Pull} (hfloor : Recorded contents floor)
    (hpull : Verified contents pull) (h : checkEnvironmentPull floor pull.snapshot = none) :
    (commitPull environmentId floor pull).2 = [] ∧ Established (commitPull environmentId floor pull).1 pull.floor := by
  cases floor with
  | none => exact ⟨rfl, rfl, rfl, fun _ => rfl, le_refl _⟩
  | some floor =>
    have hacc := (checkEnvironmentPull_eq_none hpull.distinct floor pull.chainCurrentEpoch).mp h
    exact joinEnvironmentFloor_accepted (hfloor floor rfl) hpull.records hacc environmentId rfl rfl

variable (environmentId) in
theorem pullStep_recorded {floor : Option EnvironmentFloor} {pull : Pull} (hfloor : Recorded contents floor)
    (hpull : Verified contents pull) : Recorded contents (pullStep environmentId floor pull) := by
  unfold pullStep
  split_ifs with h
  · intro f hf
    cases hf
    exact (commit_accepted environmentId hfloor hpull h).2.records hpull.records
  · exact hfloor

variable (environmentId) in
theorem floorAfter_recorded {floor : Option EnvironmentFloor} {pulls : List Pull} (hfloor : Recorded contents floor)
    (hpulls : ∀ pull ∈ pulls, Verified contents pull) : Recorded contents (floorAfter environmentId floor pulls) := by
  induction pulls generalizing floor with
  | nil => exact hfloor
  | cons pull rest ih =>
    exact ih (pullStep_recorded environmentId hfloor (hpulls pull (by simp))) fun p hp => hpulls p (by simp [hp])

/-- The floor has kept what an earlier pull established. -/
def Kept (first : EnvironmentFloor) (floor : Option EnvironmentFloor) : Prop :=
  ∃ f, floor = some f ∧ first.pullEpoch ≤ f.pullEpoch ∧ Succeeds first.pullEpoch first f

theorem pullStep_kept {first : EnvironmentFloor} {floor : Option EnvironmentFloor} {pull : Pull}
    (hfloor : Recorded contents floor) (hpull : Verified contents pull) (h : Kept first floor) :
    Kept first (pullStep environmentId floor pull) := by
  unfold pullStep
  split_ifs with hcheck
  · obtain ⟨f, rfl, hepoch, hsucc⟩ := h
    have hacc := (checkEnvironmentPull_eq_none hpull.distinct f pull.chainCurrentEpoch).mp hcheck
    have hnext := accepted_succeeds (hfloor f rfl) hpull.records hacc rfl rfl
    have hestablished := (commit_accepted environmentId hfloor hpull hcheck).2
    exact ⟨_, rfl, hepoch.trans (le_max_left _ _),
      (hsucc.trans hnext hepoch).trans (hestablished.succeeds first.pullEpoch) (le_refl _)⟩
  · exact h

variable (environmentId) in
theorem floorAfter_kept {first : EnvironmentFloor} {floor : Option EnvironmentFloor} {pulls : List Pull}
    (hfloor : Recorded contents floor) (hpulls : ∀ pull ∈ pulls, Verified contents pull) (h : Kept first floor) :
    Kept first (floorAfter environmentId floor pulls) := by
  induction pulls generalizing floor with
  | nil => exact h
  | cons pull rest ih =>
    have hpull := hpulls pull (by simp)
    exact ih (pullStep_recorded environmentId hfloor hpull) (fun p hp => hpulls p (by simp [hp])) (pullStep_kept hfloor hpull h)

/-- What a later accepted pull shows of what an earlier one showed. -/
structure Upholds (first later : Pull) : Prop where
  values : ∀ value ∈ first.snapshot.values,
    (∃ next ∈ later.snapshot.values, next.variableId = value.variableId ∧
      value.version ≤ next.version ∧ value.metaVersion ≤ next.metaVersion ∧
      (value.version = next.version → value.signedBytesHashHex = next.signedBytesHashHex) ∧
      (value.metaVersion = next.metaVersion → value.metaSignedBytesHashHex = next.metaSignedBytesHashHex) ∧
      (value.version < next.version →
        value.epoch ≤ next.epoch ∧ first.chainCurrentEpoch ≤ next.epoch.toNatural)) ∨
    ∃ tombstone ∈ later.snapshot.tombstones, tombstone.variableId = value.variableId
  tombstones : ∀ tombstone ∈ first.snapshot.tombstones, ∃ next ∈ later.snapshot.tombstones,
    next.variableId = tombstone.variableId ∧ next.side = tombstone.side ∧ next.signed = tombstone.signed
  environment : first.snapshot.environment.metaVersion ≤ later.snapshot.environment.metaVersion ∧
    (first.snapshot.environment.metaVersion = later.snapshot.environment.metaVersion →
      first.snapshot.environment.metaSigHashHex = later.snapshot.environment.metaSigHashHex)
  manifest : first.snapshot.manifest.manifestVersion ≤ later.snapshot.manifest.manifestVersion ∧
    (first.snapshot.manifest.manifestVersion = later.snapshot.manifest.manifestVersion →
      first.snapshot.manifest.signedBytesHashHex = later.snapshot.manifest.signedBytesHashHex) ∧
    first.snapshot.manifest.epoch ≤ later.snapshot.manifest.epoch

theorem get?_floor {pull : Pull} (h : Verified contents pull) {e : VariableId × VariableFloor} :
    pull.floor.variableFloors.get? e.1 = some e.2 ↔ e ∈ pull.snapshot.floors := mem_floors h.distinct _ e

theorem mem_floors_deleted {snapshot : VerifiedPullSnapshot} {id : VariableId} {t : MetaSide}
    (hm : (id, .deleted t) ∈ snapshot.floors) :
    ∃ tombstone ∈ snapshot.tombstones, tombstone.variableId = id ∧ tombstone.side = t := by
  simpa [VerifiedPullSnapshot.floors, VerifiedPulledValue.floor] using hm

theorem Advances.positive {known next : PositiveInt} {hash nextHash : HashHex}
    (h : Advances ⟨known.toNatural, hash.1⟩ ⟨next.toNatural, nextHash.1⟩) :
    known ≤ next ∧ (known = next → hash = nextHash) :=
  ⟨h.1, fun heq => Subtype.ext (h.2 (congrArg PositiveInt.toNatural heq))⟩

theorem Succeeds.upholds {first later : Pull} (hfirst : Verified contents first) (hlater : Verified contents later)
    (h : Succeeds first.chainCurrentEpoch first.floor later.floor) : Upholds first later := by
  refine ⟨fun value hvalue => ?_, fun tombstone htombstone => ?_, ?_, ?_⟩
  · have hmem : (value.variableId, value.floor) ∈ first.snapshot.floors :=
      List.mem_append_left _ (List.mem_append_left _ (List.mem_map.mpr ⟨value, hvalue, rfl⟩))
    obtain ⟨g, hg, hout⟩ := h.outlived _ _ ((get?_floor hfirst).mpr hmem)
    have hgmem := (get?_floor hlater (e := (value.variableId, g))).mp hg
    cases g with
    | active v t =>
      left
      obtain ⟨next, hnext, hid, hfloor⟩ := mem_floors_value hgmem
      cases hfloor
      obtain ⟨hrenews, hadv⟩ := hout
      have hside := hadv.positive
      rcases hrenews with heq | ⟨hlt, hepoch, hpull⟩
      · simp only [ValueSide.mk.injEq] at heq
        exact ⟨next, hnext, hid, le_of_eq heq.1, hside.1, fun _ => heq.2.2, hside.2,
          fun hlt => absurd heq.1 (ne_of_lt hlt)⟩
      · exact ⟨next, hnext, hid, le_of_lt hlt, hside.1, fun heq => absurd heq (ne_of_lt hlt), hside.2,
          fun _ => ⟨hepoch, hpull⟩⟩
    | declared t => exact False.elim hout
    | deleted t =>
      right
      obtain ⟨tombstone, htombstone, hid, -⟩ := mem_floors_deleted hgmem
      exact ⟨tombstone, htombstone, hid⟩
  · have hmem : (tombstone.variableId, .deleted tombstone.side) ∈ first.snapshot.floors :=
      List.mem_append_right _ (List.mem_map.mpr ⟨tombstone, htombstone, rfl⟩)
    obtain ⟨g, hg, hout⟩ := h.outlived _ _ ((get?_floor hfirst).mpr hmem)
    have hgmem := (get?_floor hlater (e := (tombstone.variableId, g))).mp hg
    cases g with
    | active v t => exact False.elim hout
    | declared t => exact False.elim hout
    | deleted t =>
      obtain ⟨next, hnext, hid, hside⟩ := mem_floors_deleted hgmem
      have hsame : next.side = tombstone.side := hside.trans hout.symm
      refine ⟨next, hnext, hid, hsame, ?_⟩
      have hhash : next.metaSigHashHex = tombstone.metaSigHashHex := congrArg MetaSide.metaSigHashHex hsame
      rw [← hlater.signed.tombstones next hnext, ← hfirst.signed.tombstones tombstone htombstone, hid, hhash]
  · obtain ⟨t, ht, hadv⟩ := h.side _ rfl
    cases ht
    exact hadv.positive
  · obtain ⟨n, hn, hreissue⟩ := h.manifest _ rfl
    cases hn
    rcases hreissue with heq | ⟨hlt, hepoch⟩
    · simp only [VerifiedManifest.floor, ManifestFloor.mk.injEq] at heq
      exact ⟨le_of_eq heq.1, fun _ => heq.2.2, le_of_eq heq.2.1⟩
    · exact ⟨le_of_lt hlt, fun heq => absurd heq (ne_of_lt hlt), hepoch⟩

/-- The client accepts the pull on this floor. -/
def Accepted (floor : Option EnvironmentFloor) (pull : Pull) : Prop := checkEnvironmentPull floor pull.snapshot = none

theorem no_accepted_rollback (floor : Option EnvironmentFloor) (hfloor : Recorded contents floor) (pulls : List Pull)
    (hpulls : ∀ pull ∈ pulls, Verified contents pull) :
    (∀ pre pull rest, pulls = pre ++ pull :: rest → Accepted (floorAfter environmentId floor pre) pull →
      ∃ committed, commitPull environmentId (floorAfter environmentId floor pre) pull = (committed, []) ∧
        Accepted (some committed) pull ∧ commitPull environmentId (some committed) pull = (committed, [])) ∧
    ∀ pre first mid later rest, pulls = pre ++ first :: mid ++ later :: rest →
      Accepted (floorAfter environmentId floor pre) first →
      Accepted (floorAfter environmentId floor (pre ++ first :: mid)) later → Upholds first later := by
  constructor
  · rintro pre pull rest rfl hacc
    have hpull := hpulls pull (by simp)
    have hpre : ∀ p ∈ pre, Verified contents p := fun p hp => hpulls p (by simp [hp])
    have hbefore := floorAfter_recorded environmentId hfloor hpre
    obtain ⟨hnone, hestablished⟩ := commit_accepted environmentId hbefore hpull hacc
    refine ⟨(commitPull environmentId (floorAfter environmentId floor pre) pull).1, Prod.ext rfl hnone, ?_, ?_⟩
    · exact (checkEnvironmentPull_eq_none hpull.distinct _ pull.chainCurrentEpoch).mpr hestablished.accepts
    · obtain ⟨hsame, hconflicts⟩ :=
        joinEnvironmentFloor_settled environmentId (floorAfter environmentId floor pre) pull.floor
      refine Prod.ext hsame (List.eq_nil_iff_forall_not_mem.mpr fun c hc => ?_)
      have hmem := hconflicts c hc
      change c ∈ (commitPull environmentId (floorAfter environmentId floor pre) pull).2 at hmem
      rw [hnone] at hmem
      cases hmem
  · rintro pre first mid later rest rfl hfirst hlater
    have hvfirst := hpulls first (by simp)
    have hvlater := hpulls later (by simp)
    have hpre : ∀ p ∈ pre, Verified contents p := fun p hp => hpulls p (by simp [hp])
    have hbefore := floorAfter_recorded environmentId hfloor hpre
    have hestablished := (commit_accepted environmentId hbefore hvfirst hfirst).2
    have hstep : pullStep environmentId (floorAfter environmentId floor pre) first =
        some (commitPull environmentId (floorAfter environmentId floor pre) first).1 := if_pos hfirst
    have hrun : floorAfter environmentId floor (pre ++ first :: mid) =
        floorAfter environmentId (pullStep environmentId (floorAfter environmentId floor pre) first) mid := by
      unfold floorAfter
      rw [List.foldl_append, List.foldl_cons]
    have hrecorded := pullStep_recorded environmentId hbefore hvfirst
    have hmid : ∀ pull ∈ mid, Verified contents pull := fun p hp => hpulls p (by simp [hp])
    have hkept := floorAfter_kept environmentId hrecorded hmid
      ⟨_, hstep, hestablished.pullEpoch, hestablished.succeeds first.chainCurrentEpoch⟩
    rw [hrun] at hlater
    obtain ⟨f, hf, hepoch, hsucc⟩ := hkept
    have hrecordedMid := floorAfter_recorded environmentId hrecorded hmid
    rw [hf] at hlater hrecordedMid
    have hacc := (checkEnvironmentPull_eq_none hvlater.distinct f later.chainCurrentEpoch).mp hlater
    exact (hsucc.trans (accepted_succeeds (hrecordedMid f rfl) hvlater.records hacc rfl rfl) hepoch).upholds hvfirst
      hvlater

end Run

/-! ## A run of two pulls -/

def one : PositiveInt := ⟨1, one_safe⟩

def two : PositiveInt := ⟨2, two_safe⟩

def exampleStatement (status : VariableStatus) (version : PositiveInt) (hash : HashHex) : VerifiedMetaEvidence :=
  ⟨status, version, hash, 0, [], [], [], []⟩

def exampleValue : VerifiedPulledValue where
  variableId := exampleId
  version := one
  epoch := one
  signedBytesHashHex := digitHash 49 digit49_hash
  metaVersion := one
  metaSignedBytesHashHex := digitHash 50 digit50_hash
  valueChainHeadSeq := 0
  valueChainHeadHashHex := []
  metaChainHeadSeq := 0
  metaChainHeadHashHex := []
  valueSignatureHex := []
  writerUserId := []
  writerKeyFingerprintHex := []
  metaSignatureHex := []
  authorUserId := []
  authorKeyFingerprintHex := []

def exampleManifest : VerifiedManifest := ⟨one, one, [], one, [], [], digitHash 51 digit51_hash, 0, [], [], [], []⟩

/-- A variable with a value. -/
def examplePull : Pull where
  chainCurrentEpoch := one.toNatural
  snapshot := ⟨exampleStatement .active one (digitHash 48 digit48_hash), [exampleValue], [], [], exampleManifest⟩

/-- The same variable, deleted. -/
def exampleDeletion : Pull where
  chainCurrentEpoch := one.toNatural
  snapshot := ⟨exampleStatement .active one (digitHash 48 digit48_hash), [], [],
    [⟨exampleStatement .deleted two (digitHash 52 digit52_hash), exampleId, rfl⟩], exampleManifest⟩

def exampleContents : SignedContents where
  statement _ hash :=
    if hash = digitHash 52 digit52_hash then ⟨.deleted, two, 0, [], []⟩ else ⟨.active, one, 0, [], []⟩
  value _ _ := ⟨one, one, 0, [], []⟩
  manifest _ := exampleManifest.signed

theorem no_accepted_rollback_example : Upholds examplePull exampleDeletion := by
  have hpull : Verified exampleContents examplePull := by
    refine ⟨by unfold VerifiedPullSnapshot.Distinct; decide, rfl, ?_, ?_, ?_, ?_, rfl⟩ <;>
      intro x hx <;> simp only [examplePull, List.mem_singleton, List.not_mem_nil] at hx
    · subst hx
      rfl
    · subst hx
      rfl
  have hdeletion : Verified exampleContents exampleDeletion := by
    refine ⟨by unfold VerifiedPullSnapshot.Distinct; decide, rfl, ?_, ?_, ?_, ?_, rfl⟩ <;>
      intro x hx <;> simp only [exampleDeletion, List.mem_singleton, List.not_mem_nil] at hx
    subst hx
    rfl
  refine (@no_accepted_rollback exampleId exampleContents none (fun _ h => by cases h)
    [examplePull, exampleDeletion] ?_).2 [] examplePull [] exampleDeletion [] rfl rfl ?_
  · intro p hp
    rcases List.mem_cons.mp hp with rfl | hp
    · exact hpull
    · exact List.mem_singleton.mp hp ▸ hdeletion
  · unfold Accepted
    decide

end Maruhi.Floor
