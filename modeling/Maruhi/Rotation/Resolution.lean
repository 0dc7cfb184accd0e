import Maruhi.Rotation.Lineage
import Mathlib.Data.List.Induction
import Mathlib.Data.List.Forall2
import Mathlib.Algebra.Order.Ring.Unbundled.Rat

/-!
# What resolves a flag

A flag is effective while the live plaintext was first encrypted at or below its bound, until a dismissal
finds it effective. The fold reports exactly the effective flags.
-/

open Text

namespace Maruhi.Rotation

/-! ## The lineage of a value -/

def pushes (rows : List RotationFlagSourceRow) : List RotationFlagSourceRow :=
  rows.filter fun row => row.event = .versionPushed

def pushOf (rows : List RotationFlagSourceRow) (version : Nat) : Option RotationFlagSourceRow :=
  rows.find? fun row => row.event = .versionPushed ∧ row.version = some version

/-- The latest pushed version. -/
def liveVersion (rows : List RotationFlagSourceRow) : Option Nat := (pushes rows).getLast?.bind (·.version)

/-- The epoch under which a version's plaintext was first encrypted. -/
def rootEpoch (rows : List RotationFlagSourceRow) (version : Nat) : Nat :=
  match pushOf rows version with
  | none => 0
  | some row =>
    match sameValueAs row with
    | none => row.epoch.getD 0
    | some named => if named < version then rootEpoch rows named else 0
termination_by version

/-- Pushed versions count from 1, and each names only earlier ones. -/
structure WellFormed (rows : List RotationFlagSourceRow) : Prop where
  versions : (pushes rows).map (·.version) = (List.range (pushes rows).length).map fun i => some (i + 1)
  named : ∀ row ∈ rows, row.event = .versionPushed → ∀ version named, row.version = some version →
    sameValueAs row = some named → named < version

/-- No version was pushed yet, or the live plaintext was first encrypted at or below the bound. -/
def Exposed (rows : List RotationFlagSourceRow) (epochBound : Option Nat) : Prop :=
  ∀ version, liveVersion rows = some version → within (rootEpoch rows version) epochBound = true

theorem one_le_of_sameValueAs {row : RotationFlagSourceRow} {named : Nat} (h : sameValueAs row = some named) :
    1 ≤ named := by
  unfold sameValueAs at h
  split at h
  · rename_i value _
    split_ifs at h with hint
    cases h
    have hpos : 0 < value.num := by
      rw [Rat.num_pos]
      exact lt_of_lt_of_le (by decide) hint.2
    omega
  · cases h

theorem pushes_snoc (rows : List RotationFlagSourceRow) (row : RotationFlagSourceRow) :
    pushes (rows ++ [row]) = pushes rows ++ if row.event = .versionPushed then [row] else [] := by
  unfold pushes
  rw [List.filter_append]
  split_ifs with h <;> simp [h]

theorem pushOf_snoc (rows : List RotationFlagSourceRow) (row : RotationFlagSourceRow) (version : Nat) :
    pushOf (rows ++ [row]) version = (pushOf rows version).or
      (if row.event = .versionPushed ∧ row.version = some version then some row else none) := by
  unfold pushOf
  rw [List.find?_append, List.find?_singleton]
  simp

section Snoc
variable {rows : List RotationFlagSourceRow} {row : RotationFlagSourceRow} (h : WellFormed (rows ++ [row]))

include h

theorem WellFormed.init : WellFormed rows := by
  refine ⟨?_, fun r hr => h.named r (by simp [hr])⟩
  have hversions := h.versions
  rw [pushes_snoc] at hversions
  split_ifs at hversions with hpush
  · rw [List.length_append, List.length_singleton, List.range_succ, List.map_append, List.map_append] at hversions
    exact (List.append_inj' hversions rfl).1
  · simpa using hversions

theorem version_of_push (hpush : row.event = .versionPushed) : row.version = some ((pushes rows).length + 1) := by
  have hversions := h.versions
  rw [pushes_snoc, if_pos hpush, List.length_append, List.length_singleton, List.range_succ, List.map_append,
    List.map_append] at hversions
  simpa using (List.append_inj' hversions rfl).2

theorem named_le (hpush : row.event = .versionPushed) {named : Nat} (hn : sameValueAs row = some named) :
    named ≤ (pushes rows).length :=
  Nat.le_of_lt_succ (h.named row (by simp) hpush _ _ (version_of_push h hpush) hn)

end Snoc

theorem version_of_mem {rows : List RotationFlagSourceRow} (h : WellFormed rows) {row : RotationFlagSourceRow}
    (hmem : row ∈ pushes rows) : ∃ i < (pushes rows).length, row.version = some (i + 1) := by
  have hversion : row.version ∈ (pushes rows).map (·.version) := List.mem_map_of_mem hmem
  rw [h.versions, List.mem_map] at hversion
  obtain ⟨i, hi, heq⟩ := hversion
  exact ⟨i, List.mem_range.mp hi, heq.symm⟩

theorem pushOf_eq_none {rows : List RotationFlagSourceRow} (h : WellFormed rows) {version : Nat}
    (hv : (pushes rows).length < version) : pushOf rows version = none := by
  unfold pushOf
  rw [List.find?_eq_none]
  intro row hrow htest
  obtain ⟨hpush, hversion⟩ := of_decide_eq_true htest
  obtain ⟨i, hi, heq⟩ := version_of_mem h (List.mem_filter.mpr ⟨hrow, by simpa using hpush⟩)
  rw [hversion, Option.some.injEq] at heq
  omega

theorem rootEpoch_snoc {rows : List RotationFlagSourceRow} {row : RotationFlagSourceRow} (h : WellFormed (rows ++ [row]))
    {version : Nat} (hv : version ≤ (pushes rows).length) : rootEpoch (rows ++ [row]) version = rootEpoch rows version := by
  induction version using Nat.strongRecOn with
  | _ version ih =>
    have hpush : pushOf (rows ++ [row]) version = pushOf rows version := by
      rw [pushOf_snoc, if_neg, Option.or_none]
      rintro ⟨hevent, hversion⟩
      rw [version_of_push h hevent, Option.some.injEq] at hversion
      omega
    rw [rootEpoch, rootEpoch, hpush]
    cases pushOf rows version with
    | none => rfl
    | some found =>
      dsimp only
      cases sameValueAs found with
      | none => rfl
      | some named =>
        dsimp only
        split_ifs with hlt
        · exact ih named hlt (by omega)
        · rfl

theorem rootEpoch_push {rows : List RotationFlagSourceRow} {row : RotationFlagSourceRow} (h : WellFormed (rows ++ [row]))
    (hpush : row.event = .versionPushed) : rootEpoch (rows ++ [row]) ((pushes rows).length + 1) =
      (sameValueAs row).elim (row.epoch.getD 0) (rootEpoch rows) := by
  have hfound : pushOf (rows ++ [row]) ((pushes rows).length + 1) = some row := by
    rw [pushOf_snoc, pushOf_eq_none h.init (Nat.lt_succ_self _), Option.none_or, if_pos ⟨hpush, version_of_push h hpush⟩]
  rw [rootEpoch, hfound]
  dsimp only
  cases hn : sameValueAs row with
  | none => rfl
  | some named =>
    have hle := named_le h hpush hn
    dsimp only
    rw [if_pos (by omega), rootEpoch_snoc h hle]
    rfl

theorem liveVersion_push {rows : List RotationFlagSourceRow} {row : RotationFlagSourceRow} (h : WellFormed (rows ++ [row]))
    (hpush : row.event = .versionPushed) : liveVersion (rows ++ [row]) = some ((pushes rows).length + 1) := by
  unfold liveVersion
  rw [pushes_snoc, if_pos hpush]
  simp [version_of_push h hpush]

theorem liveVersion_other {rows : List RotationFlagSourceRow} {row : RotationFlagSourceRow}
    (hpush : row.event ≠ .versionPushed) : liveVersion (rows ++ [row]) = liveVersion rows := by
  unfold liveVersion
  rw [pushes_snoc, if_neg hpush, List.append_nil]

theorem liveVersion_eq {rows : List RotationFlagSourceRow} (h : WellFormed rows) {version : Nat}
    (hv : liveVersion rows = some version) : version = (pushes rows).length := by
  unfold liveVersion at hv
  obtain ⟨last, hlast, hversion⟩ := Option.bind_eq_some_iff.mp hv
  rw [List.getLast?_eq_getElem?] at hlast
  have hlt := (List.getElem?_eq_some_iff.mp hlast).1
  have hmap := congrArg (·[(pushes rows).length - 1]?) h.versions
  simp only [List.getElem?_map, hlast, List.getElem?_range hlt, Option.map_some, hversion, Option.some.injEq] at hmap
  omega

/-! ## What a row changes -/

theorem exposed_push {rows : List RotationFlagSourceRow} {row : RotationFlagSourceRow} (h : WellFormed (rows ++ [row]))
    (hpush : row.event = .versionPushed) (epochBound : Option Nat) : Exposed (rows ++ [row]) epochBound ↔
      within ((sameValueAs row).elim (row.epoch.getD 0) (rootEpoch rows)) epochBound = true := by
  unfold Exposed
  rw [liveVersion_push h hpush]
  simp [rootEpoch_push h hpush]

theorem exposed_other {rows : List RotationFlagSourceRow} {row : RotationFlagSourceRow} (h : WellFormed (rows ++ [row]))
    (hpush : row.event ≠ .versionPushed) (epochBound : Option Nat) :
    Exposed (rows ++ [row]) epochBound ↔ Exposed rows epochBound := by
  unfold Exposed
  rw [liveVersion_other hpush]
  refine forall_congr' fun version => imp_congr_right fun hv => ?_
  rw [rootEpoch_snoc h (le_of_eq (liveVersion_eq h.init hv))]

/-! ## Dismissals -/

/-- The recommended rows, with their positions. -/
def recommendations (rows : List RotationFlagSourceRow) : List (RotationFlagSourceRow × Nat) :=
  rows.zipIdx.filter fun x => x.1.event = .recommended

def DismissedAt (rows : List RotationFlagSourceRow) (position : Nat) : Prop :=
  ∃ row, rows[position]? = some row ∧ row.event = .dismissed

/-- After the first `n` rows, a flag recommended at `index` is effective: the live plaintext is within its bound, and
no dismissal found it effective. -/
def EffectiveAt (rows : List RotationFlagSourceRow) (index : Nat) (epochBound : Option Nat) (n : Nat) : Prop :=
  Exposed (rows.take n) epochBound ∧
    ∀ position, (_ : position < n) → index < position → DismissedAt rows position →
      ¬ EffectiveAt rows index epochBound position
termination_by n

/-- A dismissal was recorded while the flag recommended at `index` was effective. -/
def DismissedWhileEffective (rows : List RotationFlagSourceRow) (index : Nat) (epochBound : Option Nat) : Prop :=
  ∃ position, index < position ∧ DismissedAt rows position ∧ EffectiveAt rows index epochBound position

theorem dismissedWhileEffective_iff {rows : List RotationFlagSourceRow} {index : Nat} {epochBound : Option Nat} :
    DismissedWhileEffective rows index epochBound ↔
      ∃ position, index < position ∧ DismissedAt rows position ∧ Exposed (rows.take position) epochBound := by
  constructor
  · rintro ⟨position, hlt, hdismissed, heffective⟩
    rw [EffectiveAt] at heffective
    exact ⟨position, hlt, hdismissed, heffective.1⟩
  · rintro ⟨position, hlt, hdismissed, hexposed⟩
    induction position using Nat.strongRecOn with
    | _ position ih =>
      by_cases hearlier : ∃ q, q < position ∧ index < q ∧ DismissedAt rows q ∧ Exposed (rows.take q) epochBound
      · obtain ⟨q, hq, hiq, hdq, heq⟩ := hearlier
        exact ih q hq hiq hdq heq
      · refine ⟨position, hlt, hdismissed, ?_⟩
        rw [EffectiveAt]
        refine ⟨hexposed, fun q hq hiq hdq heffective => hearlier ⟨q, hq, hiq, hdq, ?_⟩⟩
        rw [EffectiveAt] at heffective
        exact heffective.1

theorem dismissedWhileEffective_snoc {rows : List RotationFlagSourceRow} {row : RotationFlagSourceRow} {index : Nat}
    {epochBound : Option Nat} : DismissedWhileEffective (rows ++ [row]) index epochBound ↔
      DismissedWhileEffective rows index epochBound ∨
        (row.event = .dismissed ∧ index < rows.length ∧ Exposed rows epochBound) := by
  rw [dismissedWhileEffective_iff, dismissedWhileEffective_iff]
  constructor
  · rintro ⟨position, hlt, ⟨r, hr, hevent⟩, hexposed⟩
    rcases Nat.lt_trichotomy position rows.length with hp | hp | hp
    · rw [List.getElem?_append_left hp] at hr
      rw [List.take_append_of_le_length hp.le] at hexposed
      exact Or.inl ⟨position, hlt, ⟨r, hr, hevent⟩, hexposed⟩
    · subst hp
      rw [List.getElem?_concat_length, Option.some.injEq] at hr
      subst hr
      rw [List.take_left'] at hexposed
      · exact Or.inr ⟨hevent, hlt, hexposed⟩
      · rfl
    · rw [List.getElem?_eq_none] at hr
      · cases hr
      · simp
        omega
  · rintro (⟨position, hlt, ⟨r, hr, hevent⟩, hexposed⟩ | ⟨hevent, hlt, hexposed⟩)
    · have hp := (List.getElem?_eq_some_iff.mp hr).1
      refine ⟨position, hlt, ⟨r, ?_, hevent⟩, ?_⟩
      · rw [List.getElem?_append_left hp, hr]
      · rw [List.take_append_of_le_length hp.le]
        exact hexposed
    · refine ⟨rows.length, hlt, ⟨row, List.getElem?_concat_length, hevent⟩, ?_⟩
      rw [List.take_left' rfl]
      exact hexposed

theorem recommendations_snoc (rows : List RotationFlagSourceRow) (row : RotationFlagSourceRow) :
    recommendations (rows ++ [row]) =
      recommendations rows ++ if row.event = .recommended then [(row, rows.length)] else [] := by
  unfold recommendations
  rw [List.zipIdx_append, List.filter_append]
  split_ifs with h <;> simp [h]

/-! ## The fold of one pair -/

/-- What the fold keeps of a flag. -/
structure TracksFlag (rows : List RotationFlagSourceRow) (x : RotationFlagSourceRow × Nat) (state : FlagState) : Prop where
  position : x.2 < rows.length
  flag : flagOf x.1 = .ok state.flag
  epochBound : state.epochBound = x.1.epoch
  dismissed : state.dismissed = true ↔ DismissedWhileEffective rows x.2 x.1.epoch
  resolved : state.dismissed = false → (state.resolved = false ↔ Exposed rows x.1.epoch)

structure Tracks (rows : List RotationFlagSourceRow) (pair : PairState) : Prop where
  liveOrigin : pair.liveOrigin = (liveVersion rows).map (rootEpoch rows)
  origins : ∀ version, pair.origins.get? version =
    if 1 ≤ version ∧ version ≤ (pushes rows).length then some (rootEpoch rows version) else none
  flags : List.Forall₂ (TracksFlag rows) (recommendations rows) pair.flags

theorem tracks_nil : Tracks [] emptyPair := by
  refine ⟨rfl, fun version => ?_, List.Forall₂.nil⟩
  rw [if_neg]
  · rfl
  · simp [pushes]
    omega

theorem Tracks.exposed {rows : List RotationFlagSourceRow} {pair : PairState} (h : Tracks rows pair)
    (epochBound : Option Nat) :
    Exposed rows epochBound ↔ pair.liveOrigin.elim true (fun origin => within origin epochBound) = true := by
  unfold Exposed
  rw [h.liveOrigin]
  cases liveVersion rows <;> simp

section Step
variable {rows : List RotationFlagSourceRow} {row : RotationFlagSourceRow} {pair : PairState} (ht : Tracks rows pair)
  (h : WellFormed (rows ++ [row]))

include ht h

theorem originEpochOf_eq (hpush : row.event = .versionPushed) :
    originEpochOf row pair.origins = (sameValueAs row).elim (row.epoch.getD 0) (rootEpoch rows) := by
  unfold originEpochOf
  cases hn : sameValueAs row with
  | none => rfl
  | some named =>
    dsimp only
    rw [ht.origins, if_pos ⟨one_le_of_sameValueAs hn, named_le h hpush hn⟩]
    rfl

theorem Tracks.lineage (hpush : row.event ≠ .versionPushed) :
    pair.liveOrigin = (liveVersion (rows ++ [row])).map (rootEpoch (rows ++ [row])) ∧
      ∀ version, pair.origins.get? version =
        if 1 ≤ version ∧ version ≤ (pushes (rows ++ [row])).length then some (rootEpoch (rows ++ [row]) version) else none := by
  constructor
  · rw [liveVersion_other hpush, ht.liveOrigin]
    cases hlive : liveVersion rows with
    | none => rfl
    | some version => simp [rootEpoch_snoc h (liveVersion_eq h.init hlive).le]
  · intro version
    rw [ht.origins, pushes_snoc, if_neg hpush, List.append_nil]
    split_ifs with hv
    · rw [rootEpoch_snoc h hv.2]
    · rfl

theorem Tracks.recommended {flag : EffectiveRotationFlag} (hevent : row.event = .recommended) (hflag : flagOf row = .ok flag) :
    Tracks (rows ++ [row]) { pair with flags := pair.flags ++ [newFlag pair row flag] } := by
  have hpush : row.event ≠ .versionPushed := by simp [hevent]
  obtain ⟨hlive, horigins⟩ := ht.lineage h hpush
  refine ⟨hlive, horigins, ?_⟩
  rw [recommendations_snoc, if_pos hevent]
  refine List.rel_append ?_ (List.Forall₂.cons ?_ List.Forall₂.nil)
  · refine ht.flags.imp fun x state hs => ⟨?_, hs.flag, hs.epochBound, ?_, fun hd => ?_⟩
    · simp only [List.length_append, List.length_singleton]
      have := hs.position
      omega
    · rw [hs.dismissed, dismissedWhileEffective_snoc]
      simp [hevent]
    · rw [hs.resolved hd, exposed_other h hpush]
  · have hnone : ¬ DismissedWhileEffective (rows ++ [row]) rows.length row.epoch := by
      rw [dismissedWhileEffective_snoc]
      rintro (⟨position, hlt, ⟨r, hr, -⟩, -⟩ | ⟨-, hlt, -⟩)
      · have := (List.getElem?_eq_some_iff.mp hr).1
        omega
      · omega
    refine ⟨by simp, hflag, rfl, by simp [newFlag, hnone], fun _ => ?_⟩
    rw [exposed_other h hpush, ht.exposed]
    unfold newFlag
    cases pair.liveOrigin <;> simp

theorem Tracks.dismissal (hevent : row.event = .dismissed) :
    Tracks (rows ++ [row]) { pair with flags := pair.flags.map dismiss } := by
  have hpush : row.event ≠ .versionPushed := by simp [hevent]
  obtain ⟨hlive, horigins⟩ := ht.lineage h hpush
  refine ⟨hlive, horigins, ?_⟩
  rw [recommendations_snoc, if_neg (by simp [hevent]), List.append_nil, List.forall₂_map_right_iff]
  refine ht.flags.imp fun x state hs => ?_
  have hposition := hs.position
  refine ⟨by simp; omega, hs.flag, hs.epochBound, ?_, ?_⟩
  · rw [dismissedWhileEffective_snoc, ← hs.dismissed]
    unfold dismiss
    cases hd : state.dismissed with
    | true => simp
    | false =>
      simp only [Bool.false_or, Bool.not_eq_true', hs.resolved hd, Bool.false_eq_true, false_or]
      exact ⟨fun hexposed => ⟨hevent, hposition, hexposed⟩, fun hrow => hrow.2.2⟩
  · intro hd
    have hundismissed : state.dismissed = false := (Bool.or_eq_false_iff.mp hd).1
    rw [exposed_other h hpush, ← hs.resolved hundismissed]
    rfl

theorem Tracks.push (hevent : row.event = .versionPushed) : Tracks (rows ++ [row]) (applyPush pair row) := by
  have horigin := originEpochOf_eq ht h hevent
  unfold applyPush
  rw [horigin, version_of_push h hevent]
  refine ⟨?_, ?_, ?_⟩
  · rw [liveVersion_push h hevent, Option.map_some, rootEpoch_push h hevent]
  · intro version
    rw [pushes_snoc, if_pos hevent, List.length_append, List.length_singleton]
    dsimp only [Option.elim_some]
    rw [OrderedMap.get?_set]
    split_ifs with heq hv hv
    · rw [heq, rootEpoch_push h hevent]
    · omega
    · rw [ht.origins, if_pos (by omega), rootEpoch_snoc h (by omega)]
    · rw [ht.origins, if_neg (by omega)]
  · rw [recommendations_snoc, if_neg (by simp [hevent]), List.append_nil, List.forall₂_map_right_iff]
    refine ht.flags.imp fun x state hs => ?_
    have hposition := hs.position
    unfold moveFlag
    by_cases hd : state.dismissed = true
    · rw [if_pos hd]
      refine ⟨by simp; omega, hs.flag, hs.epochBound, ?_, fun hfalse => by simp [hd] at hfalse⟩
      rw [dismissedWhileEffective_snoc, ← hs.dismissed]
      simp [hd]
    · rw [if_neg hd]
      refine ⟨by simp; omega, hs.flag, hs.epochBound, ?_, fun _ => ?_⟩
      · rw [dismissedWhileEffective_snoc, ← hs.dismissed]
        simp [hevent]
      · rw [exposed_push h hevent, hs.epochBound]
        simp

theorem Tracks.foldPair {pair' : PairState} (hstep : foldPair pair row = .ok pair') : Tracks (rows ++ [row]) pair' := by
  unfold Rotation.foldPair at hstep
  cases hevent : row.event with
  | recommended =>
    rw [hevent] at hstep
    cases hflag : flagOf row with
    | error e => rw [hflag] at hstep; cases hstep
    | ok flag =>
      rw [hflag] at hstep
      cases hstep
      exact ht.recommended h hevent hflag
  | dismissed =>
    rw [hevent] at hstep
    cases hstep
    exact ht.dismissal h hevent
  | versionPushed =>
    rw [hevent] at hstep
    cases hstep
    exact ht.push h hevent

end Step

theorem foldPair_error {pair : PairState} {row : RotationFlagSourceRow} {e : InvalidTrigger} :
    foldPair pair row = .error e ↔ row.event = .recommended ∧ triggerOf row = .error e := by
  unfold foldPair flagOf
  cases row.event <;> cases triggerOf row <;> simp [Except.map]

/-! ## A run over one pair -/

def runPair (rows : List RotationFlagSourceRow) : Except InvalidTrigger PairState := rows.foldlM foldPair emptyPair

theorem runPair_snoc (rows : List RotationFlagSourceRow) (row : RotationFlagSourceRow) :
    runPair (rows ++ [row]) = (runPair rows).bind fun pair => foldPair pair row := by
  unfold runPair
  rw [List.foldlM_append]
  refine congrArg _ (funext fun pair => ?_)
  simp

theorem tracks_run {rows : List RotationFlagSourceRow} (h : WellFormed rows) {pair : PairState}
    (hrun : runPair rows = .ok pair) : Tracks rows pair := by
  induction rows using List.reverseRecOn generalizing pair with
  | nil =>
    cases hrun
    exact tracks_nil
  | append_singleton rows row ih =>
    rw [runPair_snoc] at hrun
    cases hinit : runPair rows with
    | error e => rw [hinit] at hrun; cases hrun
    | ok before =>
      rw [hinit] at hrun
      exact (ih h.init hinit).foldPair h hrun

theorem runPair_error {rows : List RotationFlagSourceRow} : (∃ e, runPair rows = .error e) ↔
    ∃ row ∈ rows, row.event = .recommended ∧ ∃ e, triggerOf row = .error e := by
  induction rows using List.reverseRecOn with
  | nil => simp [runPair, pure, Except.pure]
  | append_singleton rows row ih =>
    rw [runPair_snoc]
    simp only [List.mem_append, List.mem_singleton, or_and_right, exists_or, exists_eq_left, ← ih]
    cases hinit : runPair rows with
    | error e => simp [Except.bind]
    | ok before =>
      simp only [Except.bind, foldPair_error, reduceCtorEq, exists_false, false_or]
      exact ⟨fun ⟨e, hevent, he⟩ => ⟨hevent, e, he⟩, fun ⟨hevent, e, he⟩ => ⟨e, hevent, he⟩⟩

/-- Every row belongs to one (variable × environment). -/
def OfPair (environmentId variableId : JsString) (rows : List RotationFlagSourceRow) : Prop :=
  ∀ row ∈ rows, row.environmentId = environmentId ∧ row.variableId = variableId

section Pair
variable {environmentId variableId : JsString} {rows : List RotationFlagSourceRow} (hpair : OfPair environmentId variableId rows)

include hpair

theorem foldPairs_resume (pair : PairState) :
    rows.foldlM foldRow (OrderedMap.empty.set (pairKey environmentId variableId) pair) =
      (rows.foldlM foldPair pair).map (OrderedMap.empty.set (pairKey environmentId variableId)) := by
  induction rows generalizing pair with
  | nil => rfl
  | cons row rows ih =>
    obtain ⟨he, hv⟩ := hpair row (by simp)
    rw [List.foldlM_cons, List.foldlM_cons, foldRow, he, hv, OrderedMap.get?_set_self, Option.getD_some]
    cases foldPair pair row with
    | error e => rfl
    | ok next =>
      dsimp only [Except.map, bind, Except.bind]
      rw [OrderedMap.set_empty_set]
      exact ih (fun r hr => hpair r (by simp [hr])) next

theorem foldPairs_eq : foldPairs rows = (runPair rows).map fun pair =>
    if rows = [] then OrderedMap.empty else OrderedMap.empty.set (pairKey environmentId variableId) pair := by
  cases rows with
  | nil => rfl
  | cons row rows =>
    obtain ⟨he, hv⟩ := hpair row (by simp)
    unfold foldPairs runPair
    rw [List.foldlM_cons, List.foldlM_cons, foldRow, he, hv, OrderedMap.get?_empty, Option.getD_none]
    simp only [reduceCtorEq, if_false]
    cases foldPair emptyPair row with
    | error e => rfl
    | ok next => exact foldPairs_resume (fun r hr => hpair r (by simp [hr])) next

theorem deriveEffectiveFlags_eq :
    deriveEffectiveFlags rows = (runPair rows).map fun pair => pair.flags.filterMap reportOf := by
  unfold deriveEffectiveFlags
  rw [foldPairs_eq hpair]
  cases hrun : runPair rows with
  | error e => rfl
  | ok pair =>
    dsimp only [Except.map]
    split_ifs with hnil
    · subst hnil
      cases hrun
      rfl
    · simp

end Pair

/-! ## What is reported -/

open Classical in
/-- The recommendations that no dismissal found effective. -/
noncomputable def undismissed (rows : List RotationFlagSourceRow) : List (RotationFlagSourceRow × Nat) :=
  (recommendations rows).filter fun x => ¬ DismissedWhileEffective rows x.2 x.1.epoch

open Classical in
/-- Those of them that the live plaintext leaves exposed. -/
noncomputable def effective (rows : List RotationFlagSourceRow) : List (RotationFlagSourceRow × Nat) :=
  (undismissed rows).filter fun x => Exposed rows x.1.epoch

/-- A flag reports a recommendation, up to the version that reopened it. -/
def Reports (x : RotationFlagSourceRow × Nat) (flag : EffectiveRotationFlag) : Prop :=
  flagOf x.1 = .ok { flag with reopenedByVersion := none }

theorem forall₂_filterMap {α β γ : Type} {R : α → β → Prop} {S : α → γ → Prop} {p : α → Bool} {f : β → Option γ}
    {xs : List α} {ys : List β} (h : List.Forall₂ R xs ys)
    (hf : ∀ x y, R x y → (f y).elim (p x = false) fun z => p x = true ∧ S x z) :
    List.Forall₂ S (xs.filter p) (ys.filterMap f) := by
  induction h with
  | nil => exact List.Forall₂.nil
  | cons hxy _ ih =>
    rename_i x y xs ys _
    have hstep := hf x y hxy
    rw [List.filter_cons, List.filterMap_cons]
    cases hy : f y with
    | none =>
      rw [hy] at hstep
      rw [if_neg (by simpa using hstep)]
      exact ih
    | some z =>
      rw [hy] at hstep
      rw [if_pos hstep.1]
      exact List.Forall₂.cons hstep.2 ih

theorem exists_of_mem_right {α β : Type} {R : α → β → Prop} {xs : List α} {ys : List β} (h : List.Forall₂ R xs ys) {y : β}
    (hy : y ∈ ys) : ∃ x, R x y := by
  induction h with
  | nil => cases hy
  | cons hxy _ ih =>
    rcases List.mem_cons.mp hy with rfl | hy
    · exact ⟨_, hxy⟩
    · exact ih hy

theorem reopenedByVersion_of_flagOf {row : RotationFlagSourceRow} {flag : EffectiveRotationFlag} (h : flagOf row = .ok flag) :
    flag.reopenedByVersion = none := by
  unfold flagOf at h
  cases ht : triggerOf row with
  | error e => rw [ht] at h; cases h
  | ok trigger =>
    rw [ht] at h
    cases h
    rfl

theorem TracksFlag.reports {rows : List RotationFlagSourceRow} {x : RotationFlagSourceRow × Nat} {state : FlagState}
    (h : TracksFlag rows x state) {flag : EffectiveRotationFlag} (hflag : reportOf state = some flag) : Reports x flag := by
  have hnone := reopenedByVersion_of_flagOf h.flag
  have hsame : { flag with reopenedByVersion := none } = state.flag := by
    unfold reportOf at hflag
    split_ifs at hflag
    rw [Option.some.injEq] at hflag
    rw [← hflag, ← hnone]
    cases state.reopenedByVersion <;> rfl
  unfold Reports
  rw [hsame, h.flag]

theorem isSome_reportOf (state : FlagState) :
    (reportOf state).isSome = true ↔ state.dismissed = false ∧ state.resolved = false := by
  unfold reportOf
  cases state.dismissed <;> cases state.resolved <;> simp

theorem TracksFlag.isSome_reportOf {rows : List RotationFlagSourceRow} {x : RotationFlagSourceRow × Nat} {state : FlagState}
    (h : TracksFlag rows x state) : (reportOf state).isSome = true ↔
      ¬ DismissedWhileEffective rows x.2 x.1.epoch ∧ Exposed rows x.1.epoch := by
  rw [Rotation.isSome_reportOf, ← h.dismissed, Bool.not_eq_true]
  exact and_congr_right h.resolved

theorem Tracks.reported {rows : List RotationFlagSourceRow} {pair : PairState} (h : Tracks rows pair) :
    List.Forall₂ Reports (effective rows) (pair.flags.filterMap reportOf) := by
  unfold effective undismissed
  rw [List.filter_filter]
  refine forall₂_filterMap h.flags fun x state hs => ?_
  have hsome := hs.isSome_reportOf
  cases hreport : reportOf state with
  | none =>
    rw [hreport] at hsome
    simp only [Option.elim_none, Bool.and_eq_false_iff, decide_eq_false_iff_not]
    simp only [Option.isSome_none, Bool.false_eq_true, false_iff] at hsome
    tauto
  | some flag =>
    rw [hreport] at hsome
    simp only [Option.elim_some, Bool.and_eq_true, decide_eq_true_eq]
    have := hsome.mp rfl
    exact ⟨⟨this.2, this.1⟩, hs.reports hreport⟩

theorem effective_push {rows : List RotationFlagSourceRow} {row : RotationFlagSourceRow} (h : WellFormed (rows ++ [row]))
    (hpush : row.event = .versionPushed) : effective (rows ++ [row]) =
      (undismissed rows).filter fun x => within ((sameValueAs row).elim (row.epoch.getD 0) (rootEpoch rows)) x.1.epoch := by
  have hundismissed : undismissed (rows ++ [row]) = undismissed rows := by
    unfold undismissed
    rw [recommendations_snoc, if_neg (by simp [hpush]), List.append_nil]
    refine List.filter_congr fun x _ => ?_
    rw [decide_eq_decide, dismissedWhileEffective_snoc]
    simp [hpush]
  unfold effective
  rw [hundismissed]
  refine List.filter_congr fun x _ => ?_
  classical exact Bool.eq_iff_iff.mpr (decide_eq_true_iff.trans (exposed_push h hpush x.1.epoch))

/-- Moving a flag to the origin it is at already leaves its report. -/
theorem reportOf_moveFlag {origin : Nat} {version : Option Nat} {state : FlagState}
    (h : state.dismissed = false → state.resolved = !within origin state.epochBound) :
    reportOf (moveFlag origin version state) = reportOf state := by
  unfold moveFlag
  cases hd : state.dismissed with
  | true => rfl
  | false =>
    unfold reportOf
    cases hw : within origin state.epochBound <;> simp [hd, h hd, hw]

theorem get?_ofEntries_map {f : Nat → Nat} {versions : List Nat} {version : Nat} (h : version ∈ versions) :
    (OrderedMap.ofEntries (versions.map fun v => (v, f v))).get? version = some (f version) := by
  unfold OrderedMap.ofEntries
  rw [List.foldl_map, OrderedMap.get?_foldl_set_eq]
  have hfind : (versions.reverse.find? fun v => v = version) = some version := by
    cases hf : versions.reverse.find? fun v => v = version with
    | none =>
      rw [List.find?_eq_none] at hf
      have := hf version (List.mem_reverse.mpr h)
      simp at this
    | some found =>
      have := List.find?_some hf
      simpa using this
  rw [hfind]
  rfl

theorem origin_live {rows : List RotationFlagSourceRow} {pair : PairState} (ht : Tracks rows pair) (h : WellFormed rows)
    {live : Nat} (hlive : liveVersion rows = some live) : pair.origins.get? live = some (rootEpoch rows live) := by
  have hlength := liveVersion_eq h hlive
  have hne : pushes rows ≠ [] := by
    intro hnil
    unfold liveVersion at hlive
    rw [hnil] at hlive
    cases hlive
  have := List.length_pos_iff.mpr hne
  rw [ht.origins, if_pos (by omega)]

section Pair
variable {environmentId variableId : JsString} {rows : List RotationFlagSourceRow} (hpair : OfPair environmentId variableId rows)
  (h : WellFormed rows) {flags : List EffectiveRotationFlag} (hflags : deriveEffectiveFlags rows = .ok flags)

include hpair hflags

theorem exists_pair : ∃ pair, runPair rows = .ok pair ∧ pair.flags.filterMap reportOf = flags := by
  rw [deriveEffectiveFlags_eq hpair] at hflags
  cases hrun : runPair rows with
  | error e => rw [hrun] at hflags; cases hflags
  | ok pair =>
    rw [hrun] at hflags
    exact ⟨pair, rfl, Except.ok.inj hflags⟩

omit hflags in
theorem derive_push {row : RotationFlagSourceRow} (hrow : OfPair environmentId variableId [row])
    (hpush : row.event = .versionPushed) {pair : PairState} (hrun : runPair rows = .ok pair) :
    deriveEffectiveFlags (rows ++ [row]) = .ok ((applyPush pair row).flags.filterMap reportOf) := by
  have hall : OfPair environmentId variableId (rows ++ [row]) := by
    intro r hr
    rcases List.mem_append.mp hr with hr | hr
    · exact hpair r hr
    · exact hrow r hr
  rw [deriveEffectiveFlags_eq hall, runPair_snoc, hrun]
  simp [Except.bind, Except.map, foldPair, hpush]

include h

theorem effective_reported : List.Forall₂ Reports (effective rows) flags := by
  obtain ⟨pair, hrun, rfl⟩ := exists_pair hpair hflags
  exact (tracks_run h hrun).reported

theorem push_reported {row : RotationFlagSourceRow} (hrow : OfPair environmentId variableId [row])
    (hpush : row.event = .versionPushed) (hwf : WellFormed (rows ++ [row])) :
    ∃ after, deriveEffectiveFlags (rows ++ [row]) = .ok after ∧ List.Forall₂ Reports (effective (rows ++ [row])) after := by
  obtain ⟨pair, hrun, -⟩ := exists_pair hpair hflags
  exact ⟨_, derive_push hpair hrow hpush hrun, ((tracks_run h hrun).push hwf hpush).reported⟩

theorem push_same {row : RotationFlagSourceRow} (hrow : OfPair environmentId variableId [row])
    (hpush : row.event = .versionPushed) (hwf : WellFormed (rows ++ [row])) {live : Nat} (hlive : liveVersion rows = some live)
    (hsame : sameValueAs row = some live) : deriveEffectiveFlags (rows ++ [row]) = .ok flags := by
  obtain ⟨pair, hrun, rfl⟩ := exists_pair hpair hflags
  have ht := tracks_run h hrun
  rw [derive_push hpair hrow hpush hrun]
  unfold applyPush
  dsimp only
  rw [List.filterMap_map, originEpochOf_eq ht hwf hpush, hsame]
  refine congrArg _ (List.filterMap_congr fun state hstate => reportOf_moveFlag fun hd => ?_)
  obtain ⟨x, hs⟩ := exists_of_mem_right ht.flags hstate
  have hexposed := (hs.resolved hd).trans (ht.exposed x.1.epoch)
  rw [ht.liveOrigin, hlive, ← hs.epochBound] at hexposed
  rw [Option.elim_some]
  cases hresolved : state.resolved <;> cases hwithin : within (rootEpoch rows live) state.epochBound <;> simp_all

theorem counts_live {live : Nat} (hlive : liveVersion rows = some live) {versions : List Nat} (hmem : live ∈ versions) :
    ∃ counts, flagsIfCurrentByVersion rows versions = .ok counts ∧ counts.get? live = some flags.length := by
  obtain ⟨pair, hrun, rfl⟩ := exists_pair hpair hflags
  have ht := tracks_run h hrun
  have hne : rows ≠ [] := by
    rintro rfl
    cases hlive
  unfold flagsIfCurrentByVersion
  rw [foldPairs_eq hpair, hrun]
  refine ⟨_, rfl, ?_⟩
  dsimp only
  rw [if_neg hne, OrderedMap.values_empty_set]
  dsimp only [List.head?_cons, Option.elim_some, Option.bind_some]
  rw [get?_ofEntries_map hmem, origin_live ht h hlive, Option.getD_some]
  refine congrArg some ?_
  rw [List.filter_filter, ← List.countP_eq_length_filter, List.length_filterMap_eq_countP]
  refine List.countP_congr fun state hstate => ?_
  obtain ⟨x, hs⟩ := exists_of_mem_right ht.flags hstate
  rw [isSome_reportOf]
  have hexposed := fun hd => (hs.resolved hd).trans (ht.exposed x.1.epoch)
  rw [ht.liveOrigin, hlive, ← hs.epochBound] at hexposed
  simp only [Option.map_some, Option.elim_some] at hexposed
  rw [Bool.and_eq_true, Bool.not_eq_true', and_comm]
  exact and_congr_right fun hd => (hexposed hd).symm

end Pair

/-- The derivation reports the recommendations whose exposed plaintext is the live one and that no dismissal covers. A
push of the live value leaves the report, one rooted above every bound empties it, one of an older value reports what
that value's root leaves exposed, and the live version's count is the number of reported flags. -/
theorem flags_follow_lineage {environmentId variableId : JsString} {rows : List RotationFlagSourceRow}
    (hpair : OfPair environmentId variableId rows) (h : WellFormed rows) :
    ((∃ e, deriveEffectiveFlags rows = .error e) ↔
      ∃ row ∈ rows, row.event = .recommended ∧ ∃ e, triggerOf row = .error e) ∧
    ∀ flags, deriveEffectiveFlags rows = .ok flags →
      List.Forall₂ Reports (effective rows) flags ∧
      (∀ live versions, liveVersion rows = some live → live ∈ versions →
        ∃ counts, flagsIfCurrentByVersion rows versions = .ok counts ∧ counts.get? live = some flags.length) ∧
      ∀ row, OfPair environmentId variableId [row] → row.event = .versionPushed → WellFormed (rows ++ [row]) →
        (∀ live, liveVersion rows = some live → sameValueAs row = some live →
          deriveEffectiveFlags (rows ++ [row]) = .ok flags) ∧
        (∀ pushed, row.version = some pushed →
          (∀ x ∈ undismissed rows, within (rootEpoch (rows ++ [row]) pushed) x.1.epoch = false) →
          deriveEffectiveFlags (rows ++ [row]) = .ok []) ∧
        ∀ old, sameValueAs row = some old → ∃ after, deriveEffectiveFlags (rows ++ [row]) = .ok after ∧
          List.Forall₂ Reports ((undismissed rows).filter fun x => within (rootEpoch rows old) x.1.epoch) after := by
  constructor
  · rw [deriveEffectiveFlags_eq hpair, ← runPair_error]
    cases runPair rows <;> simp [Except.map]
  intro flags hflags
  refine ⟨effective_reported hpair h hflags, fun live versions hlive hmem => counts_live hpair h hflags hlive hmem, ?_⟩
  intro row hrow hpush hwf
  obtain ⟨after, hafter, hreports⟩ := push_reported hpair h hflags hrow hpush hwf
  rw [effective_push hwf hpush] at hreports
  refine ⟨fun live hlive hsame => push_same hpair h hflags hrow hpush hwf hlive hsame, fun pushed hpushed hroot => ?_,
    fun old hold => ?_⟩
  · rw [version_of_push hwf hpush, Option.some.injEq] at hpushed
    subst hpushed
    rw [List.filter_eq_nil_iff.mpr] at hreports
    · cases hreports
      exact hafter
    · intro x hx
      rw [← rootEpoch_push hwf hpush, hroot x hx]
      exact Bool.false_ne_true
  · rw [hold, Option.elim_some] at hreports
    exact ⟨after, hafter, hreports⟩

/-- A value pushed at epoch 1 and flagged for it, replaced under epoch 2, and then put back. -/
def rolledBack : List RotationFlagSourceRow :=
  let row : RotationFlagSourceRow :=
    { seq := 1, serverTs := 1, event := .versionPushed, environmentId := lit "prod", variableId := lit "KEY",
      version := some 1, epoch := some 1, targetUserId := none, targetKeyFingerprintHex := none, payload := none }
  let payload : FlagPayload := ⟨none, none, none, none⟩
  [row,
    { row with
      seq := 2, event := .recommended, version := none, targetUserId := some (lit "u")
      payload := some { payload with trigger := some (.text (lit "change_role")) } },
    { row with seq := 3, version := some 2, epoch := some 2 },
    { row with
      seq := 4, version := some 3, epoch := some 2
      payload := some { payload with sameValueAs := some (.number 1) } }]

def reopened : EffectiveRotationFlag where
  environmentId := lit "prod"
  variableId := lit "KEY"
  basis := .readable
  targetUserId := some (lit "u")
  targetServerKeyFingerprintHex := none
  recommendedAtMs := 1
  triggerChainSeq := 1
  trigger := .changeRole
  reopenedByVersion := some 3

theorem flags_follow_lineage_example :
    deriveEffectiveFlags rolledBack = .ok [reopened] ∧ List.Forall₂ Reports (effective rolledBack) [reopened] := by
  have hflags : deriveEffectiveFlags rolledBack = .ok [reopened] := by decide +kernel
  have hpair : OfPair (lit "prod") (lit "KEY") rolledBack := by
    unfold OfPair
    decide +kernel
  have hnamed : ∀ row ∈ rolledBack, ∀ version ∈ row.version, ∀ named ∈ sameValueAs row, named < version := by
    decide +kernel
  have hwf : WellFormed rolledBack :=
    ⟨by decide +kernel, fun row hrow _ version named hversion hsame => hnamed row hrow version hversion named hsame⟩
  exact ⟨hflags, ((flags_follow_lineage hpair hwf).2 _ hflags).1⟩

end Maruhi.Rotation
