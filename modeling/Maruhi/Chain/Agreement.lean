import Maruhi.Chain.Keys
import Maruhi.Chain.Tenure

/-!
# The history index agrees with every prefix

The recorder follows the verification state entry by entry: at its own seq each record shows the
state just reached, and it shows nothing new at the seqs before.
-/

open Run Timeline

namespace Maruhi.Chain

/-! ## Environments -/

def environmentView (record : Option EnvironmentRecord) (seq : Nat) : Option EnvironmentStateAtSeq := do
  let environment ← record
  guard (environment.createdAtSeq ≤ seq)
  let currentEpoch ← epochAt environment seq
  pure { createdAtSeq := environment.createdAtSeq, currentEpoch,
         deletedAtSeq := deletedAtOrBefore environment seq }

def environmentStateOf (environment : EnvironmentChainState) : EnvironmentStateAtSeq where
  createdAtSeq := environment.createdAtSeq
  currentEpoch := environment.currentEpoch
  deletedAtSeq := environment.deletedAtSeq

/-- The record of an environment at `n`. -/
structure EnvironmentTracks (n : Nat) (record : EnvironmentRecord) (environment : EnvironmentChainState) : Prop where
  created : record.createdAtSeq = environment.createdAtSeq
  created_le : record.createdAtSeq ≤ n
  starts : ∀ start ∈ record.epochStarts, start.2 ≤ n
  epoch : ∃ seq, record.epochStarts.getLast? = some (environment.currentEpoch, seq)
  deleted : record.deletedAtSeq = environment.deletedAtSeq
  deleted_le : ∀ seq, record.deletedAtSeq = some seq → seq ≤ n

theorem environmentView_of_tracks {n : Nat} {record : EnvironmentRecord} {environment : EnvironmentChainState}
    (h : EnvironmentTracks n record environment) :
    environmentView (some record) n = some (environmentStateOf environment) := by
  obtain ⟨start, hlast⟩ := h.epoch
  have hepoch : epochAt record n = some environment.currentEpoch := by
    rw [epochAt, currentAt_of_all_le _ h.starts, hlast]; rfl
  have hdeleted : deletedAtOrBefore record n = environment.deletedAtSeq := by
    rw [deletedAtOrBefore, ← h.deleted]
    cases hd : record.deletedAtSeq with
    | none => rfl
    | some seq => simpa using h.deleted_le seq hd
  have hcreated : environment.createdAtSeq ≤ n := h.created ▸ h.created_le
  simp [environmentView, environmentStateOf, hepoch, hdeleted, h.created, hcreated, guard]

/-- A change to an environment's record at `n + 1`. -/
structure EnvironmentRecorded (n : Nat) (record record' : Option EnvironmentRecord)
    (environment' : Option EnvironmentChainState) : Prop where
  tracks : Option.Rel (EnvironmentTracks (n + 1)) record' environment'
  past : ∀ seq ≤ n, environmentView record' seq = environmentView record seq

section Environments
variable {n : Nat} {record : EnvironmentRecord} {environment : EnvironmentChainState}

theorem environmentTracks_succ (h : EnvironmentTracks n record environment) :
    EnvironmentTracks (n + 1) record environment :=
  ⟨h.created, h.created_le.trans (Nat.le_succ n), fun start hs => (h.starts start hs).trans (Nat.le_succ n), h.epoch,
    h.deleted, fun seq hs => (h.deleted_le seq hs).trans (Nat.le_succ n)⟩

theorem environmentRecorded_same {r : Option EnvironmentRecord} {v : Option EnvironmentChainState}
    (h : Option.Rel (EnvironmentTracks n) r v) : EnvironmentRecorded n r r v := by
  refine ⟨?_, fun _ _ => rfl⟩
  cases h with
  | none => exact .none
  | some h => exact .some (environmentTracks_succ h)

theorem environmentRecorded_created (p : CreateEnvironmentPayload) :
    EnvironmentRecorded n none (some { createdAtSeq := n + 1, epochStarts := [(1, n + 1)], deletedAtSeq := none })
      (some (newEnvironment p (n + 1))) := by
  refine ⟨.some ⟨rfl, le_refl _, ?_, ⟨n + 1, rfl⟩, rfl, fun _ h => (nomatch h)⟩, fun seq hseq => ?_⟩
  · intro start hs
    rw [List.mem_singleton.mp hs]
  · have hahead : ¬ n + 1 ≤ seq := by omega
    simp [environmentView, hahead, guard]

theorem environmentRecorded_rotated (h : EnvironmentTracks n record environment) (p : RotateEpochPayload) :
    EnvironmentRecorded n (some record)
      (some { record with epochStarts := record.epochStarts ++ [(p.newEpoch, n + 1)] })
      (some (rotatedEnvironment p (n + 1) environment)) := by
  have h' := environmentTracks_succ h
  refine ⟨.some ⟨h'.created, h'.created_le, ?_, ⟨n + 1, List.getLast?_concat⟩, h'.deleted, h'.deleted_le⟩,
    fun seq hseq => ?_⟩
  · intro start hs
    rcases List.mem_append.mp hs with hs | hs
    · exact h'.starts start hs
    · rw [List.mem_singleton.mp hs]
  · have hcurrent := currentAt_snoc_of_lt Prod.snd record.epochStarts (a := (p.newEpoch, n + 1))
      (Nat.lt_succ_of_le hseq)
    simp only [environmentView, epochAt, hcurrent, deletedAtOrBefore, Option.bind_eq_bind, Option.bind_some]

theorem environmentRecorded_deleted (h : EnvironmentTracks n record environment)
    (hlive : environment.deletedAtSeq = none) :
    EnvironmentRecorded n (some record) (some { record with deletedAtSeq := some (n + 1) })
      (some (deletedEnvironment (n + 1) environment)) := by
  have h' := environmentTracks_succ h
  refine ⟨.some ⟨h'.created, h'.created_le, h'.starts, h'.epoch, rfl, fun seq hs => by cases hs; exact le_refl _⟩,
    fun seq hseq => ?_⟩
  have hdeleted : deletedAtOrBefore { record with deletedAtSeq := some (n + 1) } seq = deletedAtOrBefore record seq := by
    have hahead : ¬ n + 1 ≤ seq := by omega
    rw [deletedAtOrBefore, deletedAtOrBefore, h.deleted.trans hlive]
    simpa using hahead
  simp only [environmentView, epochAt, hdeleted, Option.bind_eq_bind, Option.bind_some]

end Environments

/-! ## The recorder, one key at a time -/

def tenuresOf (history : ChainHistoryBuilder) (userId : UserId) : List TenureRecord :=
  (history.tenures.get? userId).getD []

section Builder
variable (history : ChainHistoryBuilder)

theorem tenuresOf_withOpenTenure (u v : UserId) (f : TenureRecord → TenureRecord) :
    tenuresOf (history.withOpenTenure u f) v =
      if v = u then updateOpenTenure f (tenuresOf history v) else tenuresOf history v := by
  unfold ChainHistoryBuilder.withOpenTenure
  split
  · rename_i hnone
    split_ifs with hv
    · rw [tenuresOf, hv, hnone]; rfl
    · rfl
  · rename_i tenures hsome
    rw [tenuresOf, OrderedMap.get?_set]
    split_ifs with hv
    · rw [tenuresOf, hv, hsome]; rfl
    · rfl

theorem tenuresOf_recordTenureStart (u v : UserId) (seq : Nat) (device : ChainDevice) (role : Role)
    (scope : MemberScope) :
    tenuresOf (history.recordTenureStart u seq device role scope) v =
      if v = u then tenuresOf history v ++
        [{ startSeq := seq, endSeq := none, devices := [{ device, revokedSeq := none, capChanges := [] }],
           spans := [{ fromSeq := seq, role, scope }] }]
      else tenuresOf history v := by
  rw [tenuresOf, ChainHistoryBuilder.recordTenureStart, OrderedMap.get?_set]
  split_ifs with hv
  · rw [tenuresOf, hv]; rfl
  · rfl

theorem tenuresOf_recordEnvironmentDeleted (e : EnvironmentId) (seq : Nat) (v : UserId) :
    tenuresOf (history.recordEnvironmentDeleted e seq) v =
      updateOpenTenure (pruneTenureAt e seq) (tenuresOf history v) := by
  rw [tenuresOf, ChainHistoryBuilder.recordEnvironmentDeleted, OrderedMap.get?_mapValues, tenuresOf]
  cases history.tenures.get? v <;> rfl

theorem withOpenTenure_board (u : UserId) (f : TenureRecord → TenureRecord) :
    (history.withOpenTenure u f).environmentStarts = history.environmentStarts ∧
      (history.withOpenTenure u f).latestCheckpoints = history.latestCheckpoints := by
  unfold ChainHistoryBuilder.withOpenTenure
  split <;> exact ⟨rfl, rfl⟩

theorem get?_recordEpochRotated (e e' : EnvironmentId) (newEpoch seq : Nat) :
    (history.recordEpochRotated e newEpoch seq).environmentStarts.get? e' =
      if e' = e then (history.environmentStarts.get? e').map fun record =>
        { record with epochStarts := record.epochStarts ++ [(newEpoch, seq)] }
      else history.environmentStarts.get? e' := by
  unfold ChainHistoryBuilder.recordEpochRotated
  split
  · rename_i hnone
    split_ifs with he
    · rw [he, hnone]; rfl
    · rfl
  · rename_i record hsome
    exact get?_set_map (fun record : EnvironmentRecord =>
      { record with epochStarts := record.epochStarts ++ [(newEpoch, seq)] }) hsome

theorem recordEpochRotated_board (e : EnvironmentId) (newEpoch seq : Nat) :
    (history.recordEpochRotated e newEpoch seq).tenures = history.tenures ∧
      (history.recordEpochRotated e newEpoch seq).latestCheckpoints = history.latestCheckpoints := by
  unfold ChainHistoryBuilder.recordEpochRotated
  split <;> exact ⟨rfl, rfl⟩

theorem get?_recordEnvironmentDeleted (e e' : EnvironmentId) (seq : Nat) :
    (history.recordEnvironmentDeleted e seq).environmentStarts.get? e' =
      if e' = e then (history.environmentStarts.get? e').map fun record => { record with deletedAtSeq := some seq }
      else history.environmentStarts.get? e' := by
  unfold ChainHistoryBuilder.recordEnvironmentDeleted
  cases hstart : history.environmentStarts.get? e with
  | none =>
    split_ifs with he
    · rw [he, hstart]; rfl
    · rfl
  | some record =>
    exact get?_set_map (fun record : EnvironmentRecord => { record with deletedAtSeq := some seq }) hstart

theorem recordCheckpoint_board (seq : Nat) (environments : List CheckpointEnvironmentEntry) :
    (history.recordCheckpoint seq environments).tenures = history.tenures ∧
      (history.recordCheckpoint seq environments).environmentStarts = history.environmentStarts ∧
      (history.recordCheckpoint seq environments).latestCheckpoints = environments.foldl
        (fun checkpoints tuple => checkpoints.set tuple.environmentId (checkpointStateOf tuple seq))
        history.latestCheckpoints := by
  unfold ChainHistoryBuilder.recordCheckpoint
  induction environments generalizing history with
  | nil => exact ⟨rfl, rfl, rfl⟩
  | cons tuple rest ih =>
    obtain ⟨htenures, hstarts, hlatest⟩ := ih (history.recordTuple seq tuple)
    exact ⟨htenures, hstarts, hlatest⟩

end Builder

/-! ## One recorded operation -/

/-- The recorder beside the state after `n` entries. -/
structure Agrees (n : Nat) (history : ChainHistoryBuilder) (s : MutableChainState) : Prop where
  tenures : ∀ u, Tracks n (tenuresOf history u) (s.members.get? u)
  environments : ∀ e, Option.Rel (EnvironmentTracks n) (history.environmentStarts.get? e) (s.environments.get? e)
  checkpoints : history.latestCheckpoints = s.checkpoints

/-- The recorder follows one entry more, and shows nothing new before it. -/
structure Follows (n : Nat) (history history' : ChainHistoryBuilder) (s' : MutableChainState) : Prop where
  tenures : ∀ u, Recorded n (tenuresOf history u) (tenuresOf history' u) (s'.members.get? u)
  environments : ∀ e, EnvironmentRecorded n (history.environmentStarts.get? e)
    (history'.environmentStarts.get? e) (s'.environments.get? e)
  checkpoints : history'.latestCheckpoints = s'.checkpoints

theorem Follows.agrees {n : Nat} {history history' : ChainHistoryBuilder} {s' : MutableChainState}
    (h : Follows n history history' s') : Agrees (n + 1) history' s' :=
  ⟨fun u => (h.tenures u).tracks, fun e => (h.environments e).tracks, h.checkpoints⟩

theorem agrees_new : Agrees 0 .new .initial :=
  ⟨fun _ => tracks_nil 0, fun _ => .none, rfl⟩

theorem follows_same {n : Nat} {history : ChainHistoryBuilder} {s : MutableChainState} (h : Agrees n history s) :
    Follows n history history s :=
  ⟨fun u => recorded_same (h.tenures u), fun e => environmentRecorded_same (h.environments e), h.checkpoints⟩

theorem soleDeviceOf_sole {m : ChainMember} {device : ChainDevice} (h : m.devices = soleDevice device) :
    soleDeviceOf m = some device := by
  rw [soleDeviceOf, h]
  rfl

theorem recordTenureStartOf_eq (history : ChainHistoryBuilder) {s : MutableChainState} {u : UserId} {m : ChainMember}
    {device : ChainDevice} (hm : s.members.get? u = some m) (hdevices : m.devices = soleDevice device) (seq : Nat) :
    recordTenureStartOf history s u seq = history.recordTenureStart u seq device m.role m.scope := by
  rw [recordTenureStartOf, hm]
  dsimp only
  rw [soleDeviceOf_sole hdevices]

theorem recorded_first {n : Nat} {tenures : List TenureRecord} (h : Tracks n tenures none) {m : ChainMember}
    {device : ChainDevice} (hdevices : m.devices = soleDevice device) (hseq : device.addedSeq = n + 1) :
    Recorded n tenures (tenures ++
      [{ startSeq := n + 1, endSeq := none, devices := [{ device, revokedSeq := none, capChanges := [] }],
         spans := [{ fromSeq := n + 1, role := m.role, scope := m.scope }] }]) (some m) := by
  have hrecord : RecordBy (n + 1) { device, revokedSeq := none, capChanges := [] } :=
    ⟨hseq.le, fun _ h => (nomatch h), fun _ h => (nomatch h)⟩
  have hby : TenureBy (n + 1)
      { startSeq := n + 1, endSeq := none, devices := [{ device, revokedSeq := none, capChanges := [] }],
        spans := [{ fromSeq := n + 1, role := m.role, scope := m.scope }] } := by
    refine ⟨le_refl _, fun _ h => (nomatch h), fun span hs => ?_, fun record hr => ?_⟩
    · rw [List.mem_singleton.mp hs]
    · rw [List.mem_singleton.mp hr]; exact hrecord
  refine recorded_start h hby rfl rfl (view_mk hby rfl rfl rfl ?_)
  rw [hdevices, activeEntries, List.filter_cons_of_pos (by rw [deviceActiveAt_of_by hrecord (le_refl _)]; rfl)]
  rfl

theorem recordDeviceAddedOf_eq (history : ChainHistoryBuilder) {s' : MutableChainState}
    {u : UserId} {m' : ChainMember} {device : ChainDevice} (hm : s'.members.get? u = some m')
    (hd : m'.devices.get? device.keyFingerprintHex = some device)
    (hunique : ∀ fp d, m'.devices.get? fp = some d → d.encPubHex = device.encPubHex → d = device) :
    recordDeviceAddedOf history s' u device.encPubHex = history.recordDeviceAdded u device := by
  have hfind : m'.devices.values.find? (fun d => d.encPubHex = device.encPubHex) = some device := by
    cases hf : m'.devices.values.find? fun d => d.encPubHex = device.encPubHex with
    | none =>
      rw [List.find?_eq_none] at hf
      exact absurd (decide_eq_true rfl) (hf device ((OrderedMap.mem_values _ _).mpr ⟨_, hd⟩))
    | some d =>
      obtain ⟨fp, hfp⟩ := (OrderedMap.mem_values _ _).mp (List.mem_of_find?_eq_some hf)
      rw [hunique fp d hfp (by simpa using List.find?_some hf)]
  rw [recordDeviceAddedOf, hm, Option.bind_some, hfind]

section Applied
variable {crypto : Crypto} {n : Nat} {history : ChainHistoryBuilder} {s : MutableChainState}
  {op : ProposableOperation} {u : UserId} {fp : KeyFingerprintHex} {m : ChainMember} {d : ChainDevice}

theorem follows_member (h : Agrees n history s) {s' : MutableChainState} {v : UserId}
    {f : TenureRecord → TenureRecord} (hboard : SameBoard s s')
    (hself : Recorded n (tenuresOf history v) (updateOpenTenure f (tenuresOf history v)) (s'.members.get? v))
    (hother : ∀ w, w ≠ v → s'.members.get? w = s.members.get? w) :
    Follows n history (history.withOpenTenure v f) s' := by
  obtain ⟨hstarts, hlatest⟩ := withOpenTenure_board history v f
  refine ⟨fun w => ?_, fun e => ?_, ?_⟩
  · rw [tenuresOf_withOpenTenure]
    split_ifs with hw
    · rw [hw]; exact hself
    · rw [hother w hw]; exact recorded_same (h.tenures w)
  · rw [hstarts, hboard.environments]; exact environmentRecorded_same (h.environments e)
  · rw [hlatest, hboard.checkpoints]; exact h.checkpoints

theorem tracks_some (h : Agrees n history s) {v : UserId} {x : ChainMember} (hx : s.members.get? v = some x) :
    Tracks n (tenuresOf history v) (some x) := hx ▸ h.tenures v

theorem follows_apply {K : List (JsString × JsString)} (hk : WellKeyed crypto s)
    (hkeys : KeysUnique K (applyOperation crypto op s (n + 1) m.userId)) (h : Agrees n history s)
    (auth : Authorized crypto s op u fp m d) (hgenesis : ∀ p, op ≠ .genesis p)
    (hfresh : ∀ p, op = .addDevice p → currentDevice s (u, userFingerprintHex crypto p.encPubHex p.sigPubHex) = none) :
    Follows n history
      (recordHistory history { operation := op, actorUserId := m.userId } (n + 1)
        (applyOperation crypto op s (n + 1) m.userId))
      (applyOperation crypto op s (n + 1) m.userId) := by
  have hmembers := get?_members_applyOperation hk op auth.exists_environment (n + 1) m.userId
  have henvironments := get?_environments_applyOperation crypto op s (n + 1) m.userId
  obtain ⟨hactor, hdev⟩ := deviceOf_eq_some.mp auth.device
  have hu := hk.member _ _ hactor
  cases op with
  | genesis p => exact absurd rfl (hgenesis p)
  | addMember p =>
    have hnone := (addMemberReason_eq_none auth.rules).fresh
    have hnew : (applyOperation crypto (.addMember p) s (n + 1) m.userId).members.get? p.targetUserId =
        some (newMember crypto p (n + 1)) := by rw [hmembers]; exact if_pos rfl
    simp only [recordHistory, recordTenureStartOf_eq history hnew rfl]
    refine ⟨fun w => ?_, fun e => environmentRecorded_same (h.environments e), h.checkpoints⟩
    rw [tenuresOf_recordTenureStart]
    split_ifs with hw
    · rw [hw, hnew]
      exact recorded_first (hnone ▸ h.tenures p.targetUserId) rfl rfl
    · rw [hmembers, memberAfter, if_neg hw]
      exact recorded_same (h.tenures w)
  | changeRole p =>
    obtain ⟨target, hok⟩ := changeRoleReason_eq_none auth.rules
    refine follows_member h (applyChangeRole_board p s) ?_ fun w hw => (hmembers w).trans (if_neg hw)
    rw [hmembers, memberAfter, if_pos rfl, hok.resolved.member]
    exact recorded_open (tracks_some h hok.resolved.member) _ fun t hby hopen hview =>
      rewritten_span hby hopen hview _ _
  | removeMember p =>
    obtain ⟨target, hok⟩ := removeMemberReason_eq_none auth.rules
    refine follows_member h (applyRemoveMember_board p s) ?_ fun w hw => (hmembers w).trans (if_neg hw)
    rw [hmembers, memberAfter, if_pos rfl]
    exact recorded_end (tracks_some h hok.resolved.member)
  | addDevice p =>
    have hnew : (applyOperation crypto (.addDevice p) s (n + 1) m.userId).members.get? m.userId =
        some (memberWithDevice (addedDevice crypto p (n + 1)) m) := by
      rw [hmembers, memberAfter, if_pos rfl, hu, hactor]; rfl
    have hget : (memberWithDevice (addedDevice crypto p (n + 1)) m).devices.get?
        (addedDevice crypto p (n + 1)).keyFingerprintHex = some (addedDevice crypto p (n + 1)) :=
      OrderedMap.get?_set_self _ _ _
    have hadded := recordDeviceAddedOf_eq history hnew hget ?_
    · rw [show (addedDevice crypto p (n + 1)).encPubHex = p.encPubHex from rfl] at hadded
      simp only [recordHistory, hadded]
      refine follows_member h (applyAddDevice_board crypto p s (n + 1) m.userId) ?_ fun w hw =>
        (hmembers w).trans (if_neg hw)
      rw [hnew]
      refine recorded_open (tracks_some h (hu.symm ▸ hactor)) _ fun t hby hopen hview =>
        rewritten_added hby hopen hview rfl ?_
      have hnone := hfresh p rfl
      rw [currentDevice, hactor] at hnone
      exact hnone
    · intro f e he henc
      have hplace : ∀ {f e}, (memberWithDevice (addedDevice crypto p (n + 1)) m).devices.get? f = some e →
          currentDevice (applyOperation crypto (.addDevice p) s (n + 1) m.userId) (m.userId, f) = some e :=
        fun he => by rw [currentDevice, hnew, Option.bind_some, he]
      have hsame := hkeys.enc.unique _ _ _ _ (hplace he) (hplace hget) henc
      rw [(Prod.mk.inj hsame).2, hget] at he
      exact (Option.some.inj he).symm
  | revokeDevice p =>
    obtain ⟨target, hok⟩ := revokeDeviceReason_eq_none auth.rules
    refine follows_member h (applyRevokeDevice_board p s) ?_ fun w hw => (hmembers w).trans (if_neg hw)
    rw [hmembers, memberAfter, if_pos rfl, hok.member]
    exact recorded_open (tracks_some h hok.member) _ fun t hby hopen hview =>
      rewritten_revoked hby hopen hview _
  | createEnvironment p =>
    refine ⟨fun w => recorded_same (h.tenures w), fun e => ?_, h.checkpoints⟩
    have hstart := OrderedMap.get?_set history.environmentStarts p.environmentId e
      { createdAtSeq := n + 1, epochStarts := [(1, n + 1)], deletedAtSeq := none }
    simp only [recordHistory, ChainHistoryBuilder.recordEnvironmentCreated, hstart, henvironments, environmentAfter]
    split_ifs with he
    · have hnone := (createEnvironmentReason_eq_none auth.rules).1
      have hrel := h.environments e
      rw [he, hnone] at hrel
      rw [he]
      cases hr : history.environmentStarts.get? p.environmentId with
      | none => exact environmentRecorded_created p
      | some record => rw [hr] at hrel; cases hrel
    · exact environmentRecorded_same (h.environments e)
  | rotateEpoch p =>
    obtain ⟨environment, hok⟩ := rotateEpochReason_eq_none auth.rules
    obtain ⟨htenures, hlatest⟩ := recordEpochRotated_board history p.environmentId p.newEpoch (n + 1)
    have hstate : applyRotateEpoch p s (n + 1) = { s with
        environments := s.environments.set p.environmentId (rotatedEnvironment p (n + 1) environment) } := by
      rw [applyRotateEpoch, hok.found]; rfl
    refine ⟨fun w => ?_, fun e => ?_, ?_⟩
    · simp only [recordHistory, tenuresOf, htenures, hmembers, memberAfter]
      exact recorded_same (h.tenures w)
    · simp only [recordHistory, get?_recordEpochRotated, henvironments, environmentAfter]
      split_ifs with he
      · have hrel := h.environments e
        rw [he, hok.found] at hrel
        rw [he, hok.found]
        cases hr : history.environmentStarts.get? p.environmentId with
        | none => rw [hr] at hrel; cases hrel
        | some record =>
          rw [hr] at hrel
          cases hrel with
          | some hrel => exact environmentRecorded_rotated hrel p
      · exact environmentRecorded_same (h.environments e)
    · simp only [recordHistory, hlatest, applyOperation, hstate]
      exact h.checkpoints
  | deleteEnvironment p =>
    obtain ⟨⟨environment, hfound, hlive⟩, -⟩ := deleteEnvironmentReason_eq_none auth.rules
    refine ⟨fun w => ?_, fun e => ?_, ?_⟩
    · simp only [recordHistory, tenuresOf_recordEnvironmentDeleted, hmembers, memberAfter]
      have htracks := h.tenures w
      cases hw : s.members.get? w with
      | none =>
        rw [hw] at htracks
        rw [updateOpenTenure_closed _ (htracks.absent rfl)]
        exact recorded_same htracks
      | some x =>
        rw [hw] at htracks
        exact recorded_open htracks _ fun t hby hopen hview => rewritten_pruned hby hopen hview _
    · simp only [recordHistory, get?_recordEnvironmentDeleted, henvironments, environmentAfter]
      split_ifs with he
      · have hrel := h.environments e
        rw [he, hfound] at hrel
        rw [he, hfound]
        cases hr : history.environmentStarts.get? p.environmentId with
        | none => rw [hr] at hrel; cases hrel
        | some record =>
          rw [hr] at hrel
          cases hrel with
          | some hrel => exact environmentRecorded_deleted hrel hlive
      · exact environmentRecorded_same (h.environments e)
    · simp only [recordHistory, applyOperation, applyDeleteEnvironment, hfound,
        ChainHistoryBuilder.recordEnvironmentDeleted, h.checkpoints]
  | checkpoint p =>
    obtain ⟨htenures, hstarts, hlatest⟩ := recordCheckpoint_board history (n + 1) p.environments
    refine ⟨fun w => ?_, fun e => ?_, ?_⟩
    · simp only [recordHistory, tenuresOf, htenures]
      exact recorded_same (h.tenures w)
    · simp only [recordHistory, hstarts]
      exact environmentRecorded_same (h.environments e)
    · simp only [recordHistory, hlatest, h.checkpoints]
      rfl
  | grantServer p => exact follows_same ⟨h.tenures, h.environments, h.checkpoints⟩
  | revokeServer p => exact follows_same ⟨h.tenures, h.environments, h.checkpoints⟩
  | setApprovalPolicy p => exact follows_same ⟨h.tenures, h.environments, h.checkpoints⟩

def foundingMember (p : GenesisPayload) (actor : ChainActor) : ChainMember where
  userId := actor.userId
  role := .owner
  scope := .all
  devices := soleDevice (firstDeviceOf p.encPubHex p.sigPubHex actor.keyFingerprintHex 1)

theorem follows_genesis {p : GenesisPayload} {actor : ChainActor} {history : ChainHistoryBuilder}
    (h : Agrees 0 history .initial) :
    Follows 0 history
      (recordHistory history { operation := .genesis p, actorUserId := actor.userId } 1 (applyGenesis p actor 1 .initial))
      (applyGenesis p actor 1 .initial) := by
  have hnew : (applyGenesis p actor 1 .initial).members.get? actor.userId = some (foundingMember p actor) :=
    OrderedMap.get?_set_self _ _ _
  simp only [recordHistory, recordTenureStartOf_eq history hnew rfl]
  refine ⟨fun w => ?_, fun e => environmentRecorded_same (h.environments e), h.checkpoints⟩
  rw [tenuresOf_recordTenureStart]
  split_ifs with hw
  · rw [hw, hnew]
    exact recorded_first (m := foundingMember p actor) (h.tenures actor.userId) rfl rfl
  · have hold : (applyGenesis p actor 1 .initial).members.get? w = none := OrderedMap.get?_set_ne _ _ hw
    rw [hold]
    exact recorded_same (h.tenures w)

end Applied

/-! ## The run -/

/-- What the recorder shows at `q` of a state. -/
structure Shows (history : ChainHistoryBuilder) (q : Nat) (s : MutableChainState) : Prop where
  members : ∀ u, showsAt (tenuresOf history u) q = (s.members.get? u).map memberView
  environments : ∀ e, environmentView (history.environmentStarts.get? e) q =
    (s.environments.get? e).map environmentStateOf

theorem shows_of_agrees {n : Nat} {history : ChainHistoryBuilder} {s : MutableChainState} (h : Agrees n history s) :
    Shows history n s := by
  refine ⟨fun u => showsAt_of_tracks (h.tenures u), fun e => ?_⟩
  have hrel := h.environments e
  generalize history.environmentStarts.get? e = r at hrel ⊢
  generalize s.environments.get? e = v at hrel ⊢
  cases hrel with
  | none => rfl
  | some hrel => exact environmentView_of_tracks hrel

theorem Follows.shows {n : Nat} {history history' : ChainHistoryBuilder} {s' s : MutableChainState} {q : Nat}
    (h : Follows n history history' s') (hq : q ≤ n) (hshows : Shows history q s) : Shows history' q s :=
  ⟨fun u => ((h.tenures u).past q hq).trans (hshows.members u),
    fun e => ((h.environments e).past q hq).trans (hshows.environments e)⟩

/-- The recorder after an entry that has been read. -/
def historyAfter (history : ChainHistoryBuilder) (applied : Option AppliedOperation) (seq : Nat)
    (state : MutableChainState) : ChainHistoryBuilder :=
  match applied with
  | none => history
  | some applied => recordHistory history applied seq state

theorem entryHashes_historyAfter (history : ChainHistoryBuilder) (applied : Option AppliedOperation) (seq : Nat)
    (state : MutableChainState) : (historyAfter history applied seq state).entryHashes = history.entryHashes := by
  have hopen : ∀ u f, (history.withOpenTenure u f).entryHashes = history.entryHashes := by
    intro u f
    unfold ChainHistoryBuilder.withOpenTenure
    split <;> rfl
  have hstart : ∀ u, (recordTenureStartOf history state u seq).entryHashes = history.entryHashes := by
    intro u
    unfold recordTenureStartOf
    split
    · rfl
    · split <;> rfl
  cases applied with
  | none => rfl
  | some applied =>
    obtain ⟨op, actorUserId⟩ := applied
    cases op with
    | genesis p => exact hstart _
    | addMember p => exact hstart _
    | changeRole p => exact hopen _ _
    | removeMember p => exact hopen _ _
    | addDevice p =>
      show (recordDeviceAddedOf history state actorUserId p.encPubHex).entryHashes = _
      unfold recordDeviceAddedOf
      split
      · rfl
      · exact hopen _ _
    | revokeDevice p => exact hopen _ _
    | rotateEpoch p =>
      show (history.recordEpochRotated p.environmentId p.newEpoch seq).entryHashes = _
      unfold ChainHistoryBuilder.recordEpochRotated
      split <;> rfl
    | checkpoint p =>
      show (p.environments.foldl (fun history tuple => history.recordTuple seq tuple) history).entryHashes = _
      clear hopen hstart
      induction p.environments generalizing history with
      | nil => rfl
      | cons tuple rest ih => exact ih (history.recordTuple seq tuple)
    | _ => rfl

theorem follows_step {crypto : Crypto} {history : Option ChainHistoryBuilder} {pre all : List Json}
    {loop loop' : LoopState} {j : Json} {entry : ChainEntry} {hash : JsString} {applied : Option AppliedOperation}
    (hdistinct : FingerprintsDistinct crypto all) (hall : pre ++ [j] <+: all)
    (hrun : Runs crypto history pre loop) (hrun' : Runs crypto history (pre ++ [j]) loop')
    (hacc : AcceptedStep crypto loop j loop' entry hash applied) {builder : ChainHistoryBuilder}
    (h : Agrees loop.seq builder loop.state) :
    Follows loop.seq builder (historyAfter builder applied (loop.seq + 1) loop'.state) loop'.state := by
  have hk := (runs_sound hrun).keyed
  have hkeys := runs_keysUnique hrun ((List.prefix_append pre [j]).trans hall) hdistinct
  have hkeys' := runs_keysUnique hrun' hall hdistinct
  have hout := step_outcome hrun hacc hall
  generalize loop'.state = s' at hout hkeys' ⊢
  cases hout with
  | genesis p hop hs hn hmem hfp =>
    rw [hs, hn] at h
    rw [hn]
    exact follows_genesis h
  | waits pending m d hactor => exact follows_same ⟨h.tenures, h.environments, h.checkpoints⟩
  | applies op u fp m d pending hmem auth happlied =>
    have hgenesis : ∀ p, op ≠ .genesis p := by
      cases happlied with
      | entry hop hgenesis huser hfp htarget => exact hgenesis
      | approve href q hop hpending hinner huser hfp htarget =>
        rintro p rfl
        unfold isApprovalTarget at htarget
        split at htarget
        · cases htarget
        · simp [isSetApprovalPolicy, establishesOwner, approvalTargetOpOf] at htarget
    have hfresh : ∀ p, op = .addDevice p →
        currentDevice loop.state (u, userFingerprintHex crypto p.encPubHex p.sigPubHex) = none := by
      rintro p rfl
      exact currentDevice_fresh hk hkeys hdistinct (addDeviceReason_eq_none auth.rules).keys
        (mem_registeredKeys hmem rfl) u
    have hfollows := follows_apply hk ⟨hkeys'.enc, hkeys'.sig, hkeys'.unnamed, hkeys'.named, hkeys'.registered⟩ h auth
      hgenesis hfresh
    exact ⟨hfollows.tenures, hfollows.environments, hfollows.checkpoints⟩

/-- Over a whole run the recorder agrees with the state, and shows every state it passed. -/
theorem runs_shows {crypto : Crypto} {entries : List Json} {loop : LoopState}
    (hrun : Runs crypto (some .new) entries loop) (hdistinct : FingerprintsDistinct crypto entries) :
    ∃ history, loop.history = some history ∧ history.entryHashes.length = entries.length ∧
      Agrees loop.seq history loop.state ∧
      ∀ q, 1 ≤ q → q ≤ entries.length → ∀ s, stateAfter crypto (entries.take q) = some s → Shows history q s := by
  refine reaches_induction hrun (P := fun pre loop => ∃ history, loop.history = some history ∧
    history.entryHashes.length = pre.length ∧ Agrees loop.seq history loop.state ∧
    ∀ q, 1 ≤ q → q ≤ pre.length → ∀ s, stateAfter crypto (pre.take q) = some s → Shows history q s)
    ⟨.new, rfl, rfl, agrees_new, fun q h1 h2 => absurd (h1.trans h2) (by simp)⟩ ?_
  rintro pre j loop loop' hpre hreach ⟨history, hhistory, hlen, hagrees, hshows⟩ hstep
  obtain ⟨entry, hash, applied, hacc⟩ := verifyEntry_ok hstep
  have hrun' : Runs crypto (some .new) (pre ++ [j]) loop' := (reaches_snoc _ _ _ _).mpr ⟨loop, hreach, hstep⟩
  have hfollows := follows_step hdistinct hpre hreach hrun' hacc hagrees
  have hagrees' := hfollows.agrees
  have hhash : ∀ b : ChainHistoryBuilder, Agrees (loop.seq + 1) b loop'.state →
      Agrees (loop.seq + 1) (b.recordEntryHash hash) loop'.state :=
    fun b hb => ⟨hb.tenures, hb.environments, hb.checkpoints⟩
  have hentries := entryHashes_historyAfter history applied (loop.seq + 1) loop'.state
  refine ⟨(historyAfter history applied (loop.seq + 1) loop'.state).recordEntryHash hash, ?_, ?_, ?_, ?_⟩
  · rw [hacc.history_eq, hhistory]
    rfl
  · rw [ChainHistoryBuilder.recordEntryHash, hentries, List.length_append, hlen, List.length_append]
    rfl
  · rw [hacc.seq_eq]
    exact hhash _ hagrees'
  · intro q h1 hq s hs
    rw [List.length_append, List.length_singleton] at hq
    rcases Nat.le_succ_iff.mp hq with hq | rfl
    · rw [List.take_append_of_le_length hq] at hs
      have hprev := hfollows.shows (by rw [runs_seq hreach]; exact hq) (hshows q h1 hq s hs)
      exact ⟨hprev.members, hprev.environments⟩
    · rw [List.take_of_length_le (by simp), stateAfter_of_runs hrun'] at hs
      cases hs
      have hnow := shows_of_agrees hagrees'
      rw [show pre.length.succ = loop.seq + 1 by rw [runs_seq hreach]]
      exact ⟨hnow.members, hnow.environments⟩

/-! ## The index -/

/-- An accepted entry carries a safe integer as its seq: any other does not encode. -/
theorem EntryAt.seq_le {crypto : Crypto} {entries : List Json} {n : Nat} {s s' : MutableChainState}
    {entry : ChainEntry} {hash : JsString} {applied : Option AppliedOperation}
    (h : EntryAt crypto entries n s entry hash s' applied) : n + 1 ≤ Json.maxSafeInteger := by
  rw [← h.seq_eq]
  obtain ⟨bytes, hbytes, -⟩ := Option.map_eq_some_iff.mp h.hash_eq
  simp only [canonicalChainEntryBytes, Option.bind_eq_bind, Option.bind_eq_some_iff, encodeLengthPrefixed,
    Option.map_eq_some_iff] at hbytes
  obtain ⟨payload, -, bodies, hbodies, -⟩ := hbytes
  obtain ⟨body, hbody⟩ := Framing.exists_of_mapM hbodies (a := .num entry.seq) (by simp [signedFields])
  simp only [fieldOk, fieldBody, Option.bind_eq_bind, Option.bind_eq_some_iff] at hbody
  obtain ⟨_, hnum, -⟩ := hbody
  split_ifs at hnum with hle
  exact hle

theorem memberStateAt_eq (index : ChainHistoryIndex) (u : UserId) {q : Nat} (hq : index.inRange q = true) :
    (index.memberStateAt u q).map (fun x => (x.role, x.scope, x.devices)) =
      (showsAt ((index.tenures.get? u).getD []) q).map fun view =>
        (view.role, view.scope, OrderedMap.ofEntries view.devices) := by
  simp only [ChainHistoryIndex.memberStateAt, ChainHistoryIndex.tenureAt, hq, if_true, showsAt, Option.bind_eq_bind]
  change (((((index.tenures.get? u).getD []).find? fun tenure => covers tenure q)).bind _).map _ = _
  cases ((index.tenures.get? u).getD []).find? fun tenure => covers tenure q with
  | none => rfl
  | some tenure =>
    simp only [Option.bind_some, viewAt]
    cases spanAt tenure q <;> rfl

theorem deviceStateAt_eq (index : ChainHistoryIndex) (u : UserId) (fp : KeyFingerprintHex) {q : Nat}
    (hq : index.inRange q = true) :
    (index.deviceStateAt u fp q).map (fun x => (x.device, x.permission)) =
      (showsAt ((index.tenures.get? u).getD []) q).bind fun view =>
        (view.devices.find? fun e => e.1 = fp).map fun e =>
          (e.2, permissionUnder view.role view.scope e.2.toDeviceCap) := by
  simp only [ChainHistoryIndex.deviceStateAt, ChainHistoryIndex.tenureAt, hq, if_true, showsAt, Option.bind_eq_bind]
  change (((((index.tenures.get? u).getD []).find? fun tenure => covers tenure q)).bind _).map _ = _
  cases ((index.tenures.get? u).getD []).find? fun tenure => covers tenure q with
  | none => rfl
  | some tenure =>
    simp only [Option.bind_some, viewAt]
    cases spanAt tenure q with
    | none => rfl
    | some span =>
      simp only [Option.bind_some, Option.map_some, activeEntries, List.find?_map, List.find?_filter,
        Function.comp_def, Option.map_map, Option.map_bind]
      have hpred : (fun record : DeviceRecord =>
          decide (deviceActiveAt record q = true ∧ decide (record.device.keyFingerprintHex = fp) = true)) =
          fun record => decide (record.device.keyFingerprintHex = fp) && deviceActiveAt record q := by
        funext record
        rw [Bool.decide_and, Bool.decide_coe, Bool.decide_coe, Bool.and_comm]
      rw [hpred]
      cases tenure.devices.find? fun record =>
        decide (record.device.keyFingerprintHex = fp) && deviceActiveAt record q <;> rfl

/-- The index of an accepted list answers, at every seq, with the state of the list up to that seq. -/
theorem history_agrees (crypto : Crypto) (entries : List Json) (st : ChainState) (index : ChainHistoryIndex)
    (h : verifyChainWithHistory crypto entries = .ok (st, index)) (hdistinct : FingerprintsDistinct crypto entries) :
    index.headSeq = st.headSeq ∧ (∀ e, index.latestCheckpointFor e = st.checkpoints.get? e) ∧
      ∀ q, 1 ≤ q → q ≤ st.headSeq → ∃ prefixState, verifyChain crypto (entries.take q) = .ok prefixState ∧
        (∀ u, (index.memberStateAt u q).map (fun x => (x.role, x.scope, x.devices)) =
          (prefixState.members.get? u).map fun m => (m.role, m.scope, m.devices)) ∧
        (∀ u fp, (index.deviceStateAt u fp q).map (fun x => (x.device, x.permission)) =
          (deviceOf prefixState.members u fp).map fun x => (x.2, effectivePermissionOf x.1 x.2.toDeviceCap)) ∧
        ∀ e, index.environmentStateAt e q = (prefixState.environments.get? e).map environmentStateOf := by
  obtain ⟨⟨st', history'⟩, hcore, hresult⟩ := bind_ok h
  cases hresult
  have hne : entries ≠ [] := by
    rintro rfl
    cases hcore
  unfold verifyChainCore at hcore
  rw [if_neg (by simpa using hne)] at hcore
  obtain ⟨loop, hrun, hloop⟩ := bind_ok hcore
  cases hloop
  obtain ⟨history, hhistory, hlen, hagrees, hshows⟩ := runs_shows hrun hdistinct
  rw [hhistory]
  refine ⟨hlen, fun e => by rw [sealChainState, ← hagrees.checkpoints]; rfl, fun q h1 hq => ?_⟩
  have hq : q ≤ entries.length := hq
  obtain ⟨mid, hmid, -⟩ := reaches_take hrun q
  have hprefix : verifyChain crypto (entries.take q) =
      .ok (sealChainState mid.state (entries.take q).length mid.prevHash) := by
    refine verifyChain_ok_iff.mpr ⟨?_, _, runs_forget hmid, rfl⟩
    rw [Ne, List.take_eq_nil_iff, not_or]
    exact ⟨by omega, hne⟩
  have hstate := stateAfter_of_runs hmid
  have hshow := hshows q h1 hq mid.state hstate
  have hrange : history.build.inRange q = true := by
    have hlt : q - 1 < entries.length := by omega
    obtain ⟨s, entry, hash, applied, hat⟩ := entryAt_of_stateAfter hlt
      (by rw [Nat.sub_add_cancel h1]; exact hstate)
    have hsafe := hat.seq_le
    rw [Nat.sub_add_cancel h1] at hsafe
    simp only [ChainHistoryIndex.inRange, ChainHistoryIndex.headSeq, ChainHistoryBuilder.build, hlen,
      Bool.and_eq_true, decide_eq_true_eq]
    exact ⟨⟨hsafe, h1⟩, hq⟩
  refine ⟨_, hprefix, fun u => ?_, fun u fp => ?_, fun e => ?_⟩
  · refine (memberStateAt_eq _ u hrange).trans ((congrArg _ (hshow.members u)).trans ?_)
    rw [Option.map_map]
    refine congrArg (fun f => Option.map f _) (funext fun m => ?_)
    simp only [Function.comp_apply, memberView, OrderedMap.ofEntries_entries]
  · refine (deviceStateAt_eq _ u fp hrange).trans ((congrArg (fun v => Option.bind v _) (hshow.members u)).trans ?_)
    simp only [sealChainState, deviceOf, Option.bind_eq_bind]
    cases mid.state.members.get? u with
    | none => rfl
    | some m =>
      simp only [Option.map_some, Option.bind_some, memberView]
      rw [← OrderedMap.find?_entries m.devices fp]
      cases m.devices.entries.find? fun e => e.1 = fp <;> rfl
  · rw [Option.getD_some, ChainHistoryIndex.environmentStateAt, hrange]
    exact hshow.environments e

theorem history_agrees_example : ∃ st index, verifyChainWithHistory exampleCrypto exampleChain = .ok (st, index) ∧
    index.headSeq = st.headSeq ∧ ∀ e, index.latestCheckpointFor e = st.checkpoints.get? e := by
  obtain ⟨st, index, h⟩ := exampleChain_accepted
  obtain ⟨hhead, hcheckpoints, -⟩ := history_agrees _ _ st index h exampleChain_distinct
  exact ⟨st, index, h, hhead, hcheckpoints⟩

end Maruhi.Chain
