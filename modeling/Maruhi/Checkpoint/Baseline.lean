import Maruhi.Audit.Proposals

/-!
# The baseline of an environment

What the history index answers for the latest checkpoint is the tuple the latest checkpoint entry issued.
-/

open Run

namespace Maruhi.Checkpoint
open Chain Audit

/-! ## The recorder's checkpoints are the state's -/

theorem get?_latestCheckpoints_recordHistory (history : ChainHistoryBuilder) (applied : AppliedOperation) (seq : Nat)
    (s : MutableChainState) (e : EnvironmentId) :
    (recordHistory history applied seq s).latestCheckpoints.get? e =
      checkpointAfter applied.operation seq e (history.latestCheckpoints.get? e) := by
  have hstart : ∀ u, (recordTenureStartOf history s u seq).latestCheckpoints = history.latestCheckpoints := by
    intro u
    unfold recordTenureStartOf
    split
    · rfl
    · split <;> rfl
  obtain ⟨op, actorUserId⟩ := applied
  cases op with
  | genesis p => simp only [recordHistory, hstart, checkpointAfter]
  | addMember p => simp only [recordHistory, hstart, checkpointAfter]
  | changeRole p =>
    simp only [recordHistory, ChainHistoryBuilder.recordRoleChange, (withOpenTenure_board _ _ _).2, checkpointAfter]
  | removeMember p =>
    simp only [recordHistory, ChainHistoryBuilder.recordTenureEnd, (withOpenTenure_board _ _ _).2, checkpointAfter]
  | deleteEnvironment p => exact OrderedMap.get?_delete _ _ _
  | rotateEpoch p => simp only [recordHistory, (recordEpochRotated_board _ _ _ _).2, checkpointAfter]
  | checkpoint p =>
    simp only [recordHistory, (recordCheckpoint_board _ _ _).2.2, checkpointAfter]
    exact OrderedMap.get?_foldl_set_eq _ _ _ _ _
  | addDevice p =>
    simp only [recordHistory, recordDeviceAddedOf, checkpointAfter]
    split
    · rfl
    · simp only [ChainHistoryBuilder.recordDeviceAdded, (withOpenTenure_board _ _ _).2]
  | revokeDevice p =>
    simp only [recordHistory, ChainHistoryBuilder.recordDevicesRevoked, (withOpenTenure_board _ _ _).2, checkpointAfter]
  | _ => rfl

theorem get?_checkpoints_outcome {crypto : Crypto} {entries : List Json} {n : Nat} {s s' : MutableChainState}
    {entry : ChainEntry} {applied : Option AppliedOperation} (h : Outcome crypto entries n s entry s' applied)
    (e : EnvironmentId) :
    s'.checkpoints.get? e = applied.elim (s.checkpoints.get? e) fun a =>
      checkpointAfter a.operation (n + 1) e (s.checkpoints.get? e) := by
  cases h with
  | genesis p hop hs hn => rw [hs]; rfl
  | waits => rfl
  | applies op u fp m d pending hmem auth => exact get?_checkpoints_applyOperation crypto op s auth.exists_environment _ _ e

theorem latestCheckpoints_of_runs {crypto : Crypto} {entries : List Json} {loop : LoopState}
    (hrun : Runs crypto (some .new) entries loop) : ∃ history, loop.history = some history ∧
      ∀ e, history.latestCheckpoints.get? e = loop.state.checkpoints.get? e := by
  refine reaches_induction hrun (P := fun _ loop => ∃ history, loop.history = some history ∧
    ∀ e, history.latestCheckpoints.get? e = loop.state.checkpoints.get? e) ⟨.new, rfl, fun _ => rfl⟩ ?_
  rintro pre j mid mid' hpre hreach ⟨history, hhistory, hsame⟩ hstep
  obtain ⟨entry, hash, applied, hacc⟩ := verifyEntry_ok hstep
  refine ⟨(historyAfter history applied (mid.seq + 1) mid'.state).recordEntryHash hash, ?_, fun e => ?_⟩
  · rw [hacc.history_eq, hhistory]
    rfl
  · rw [get?_checkpoints_outcome (step_outcome hreach hacc hpre) e, ← hsame e]
    cases applied with
    | none => rfl
    | some applied => exact get?_latestCheckpoints_recordHistory history applied (mid.seq + 1) mid'.state e

theorem latestCheckpointFor_eq {crypto : Crypto} {entries : List Json} {st : ChainState} {index : ChainHistoryIndex}
    (h : verifyChainWithHistory crypto entries = .ok (st, index)) {last : MutableChainState}
    (hlast : stateAfter crypto entries = some last) (e : EnvironmentId) :
    index.latestCheckpointFor e = last.checkpoints.get? e := by
  obtain ⟨-, loop, hrun, -, rfl⟩ := verifyChainWithHistory_ok.mp h
  obtain ⟨history, hhistory, hsame⟩ := latestCheckpoints_of_runs hrun
  have hstate := stateAfter_of_runs hrun
  rw [hlast, Option.some.injEq] at hstate
  rw [hhistory, hstate]
  exact hsame e

/-! ## The latest checkpoint entry -/

/-- The operation issues a checkpoint of `e`, or deletes it. -/
def settlesCheckpoint (operation : ProposableOperation) (e : EnvironmentId) : Prop :=
  match operation with
  | .deleteEnvironment p => p.environmentId = e
  | .checkpoint p => ∃ tuple ∈ p.environments, tuple.environmentId = e
  | _ => False

/-- The entry at position `n` checkpoints `e` with `tuple`; none after it does, and none deletes `e`. -/
structure LatestCheckpoint (crypto : Crypto) (entries : List Json) (e : EnvironmentId) (n : Nat)
    (tuple : CheckpointEnvironmentEntry) : Prop where
  issued : ∃ s entry hash s' applied p, EntryAt crypto entries n s entry hash s' (some applied) ∧
    applied.operation = .checkpoint p ∧ tuple ∈ p.environments
  environment : tuple.environmentId = e
  latest : ∀ k, n < k → ∀ s entry hash s' applied, EntryAt crypto entries k s entry hash s' (some applied) →
    ¬ settlesCheckpoint applied.operation e

theorem checkpointAfter_eq {operation : ProposableOperation} {e : EnvironmentId} (h : ¬ settlesCheckpoint operation e)
    (seq : Nat) (old : Option EnvironmentCheckpointState) : checkpointAfter operation seq e old = old := by
  cases operation with
  | deleteEnvironment p => exact if_neg fun he => h he.symm
  | checkpoint p =>
    have hnone : p.environments.reverse.find? (fun tuple => tuple.environmentId = e) = none := by
      rw [List.find?_eq_none]
      intro tuple htuple he
      exact h ⟨tuple, List.mem_reverse.mp htuple, of_decide_eq_true he⟩
    simp only [checkpointAfter, hnone, Option.map_none, Option.none_or]
  | _ => rfl

theorem checkpointAfter_checkpoint {p : CheckpointPayload} (h : (p.environments.map (·.environmentId)).Nodup)
    {tuple : CheckpointEnvironmentEntry} (htuple : tuple ∈ p.environments) (seq : Nat)
    (old : Option EnvironmentCheckpointState) :
    checkpointAfter (.checkpoint p) seq tuple.environmentId old = some (checkpointStateOf tuple seq) := by
  have hfind : p.environments.reverse.find? (fun other => other.environmentId = tuple.environmentId) = some tuple := by
    have hsome : (p.environments.reverse.find? fun other => other.environmentId = tuple.environmentId).isSome = true := by
      rw [List.find?_isSome]
      exact ⟨tuple, List.mem_reverse.mpr htuple, by simp⟩
    obtain ⟨other, hother⟩ := Option.isSome_iff_exists.mp hsome
    have hmem := List.mem_reverse.mp (List.mem_of_find?_eq_some hother)
    have hid : other.environmentId = tuple.environmentId := by simpa using List.find?_some hother
    rw [hother, List.inj_on_of_nodup_map h hmem htuple hid]
  simp only [checkpointAfter, hfind, Option.map_some, Option.some_or]

/-- The baseline is the tuple of the latest checkpoint. -/
theorem latestCheckpointFor_of_latest {crypto : Crypto} {entries : List Json} {st : ChainState}
    {index : ChainHistoryIndex} (h : verifyChainWithHistory crypto entries = .ok (st, index)) {e : EnvironmentId} {n : Nat}
    {tuple : CheckpointEnvironmentEntry} (hlatest : LatestCheckpoint crypto entries e n tuple) :
    index.latestCheckpointFor e = some (checkpointStateOf tuple (n + 1)) := by
  obtain ⟨s, entry, hash, s', applied, p, hat, hop, htuple⟩ := hlatest.issued
  obtain ⟨last, hlast, -⟩ := stateAfter_of_verifyChain (verifyChain_of_withHistory h)
  rw [latestCheckpointFor_eq h hlast]
  have hissued : s'.checkpoints.get? e = some (checkpointStateOf tuple (n + 1)) := by
    have hout := hat.outcome
    rw [get?_checkpoints_outcome hout, Option.elim_some, hop, ← hlatest.environment]
    cases hout with
    | genesis p' hop' => cases hop
    | applies op u fp m d pending hmem auth happlied =>
      cases hop
      have hshaped := operationsIn_shaped _ hmem
      exact checkpointAfter_checkpoint hshaped.2.1 htuple _ _
  refine entry_induction hat.after (P := fun _ s => s.checkpoints.get? e = some (checkpointStateOf tuple (n + 1))) hissued ?_
    hat.lt_length le_rfl (by rwa [List.take_length])
  intro k t entry' hash' t' applied' hk _ hat' ih
  rw [get?_checkpoints_outcome hat'.outcome]
  cases applied' with
  | none => exact ih
  | some applied' =>
    rw [Option.elim_some, checkpointAfter_eq (hlatest.latest k hk _ _ _ _ _ hat')]
    exact ih

end Maruhi.Checkpoint
