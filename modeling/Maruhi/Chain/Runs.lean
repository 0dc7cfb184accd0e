import Maruhi.Chain.Effect
import Maruhi.Chain.Reach

/-!
# Accepted lists and the states they pass through

A property of the derived state is proved over `state_induction`: it holds at the start, each
applied operation keeps it, and the pending proposals play no part in it.
-/

open Run

namespace Maruhi.Chain

/-- The loop reads `entries` without a refusal. -/
def Runs (crypto : Crypto) (history : Option ChainHistoryBuilder) (entries : List Json) (loop : LoopState) : Prop :=
  Reaches (verifyEntry crypto) (.initial history) entries loop

/-- The verification state after the entries, none where one is refused. -/
def stateAfter (crypto : Crypto) (entries : List Json) : Option MutableChainState :=
  match entries.foldlM (verifyEntry crypto) (.initial none) with
  | .ok loop => some loop.state
  | .error _ => none

theorem stateAfter_eq_some {crypto : Crypto} {entries : List Json} {s : MutableChainState} :
    stateAfter crypto entries = some s ↔ ∃ loop, Runs crypto none entries loop ∧ loop.state = s := by
  unfold stateAfter Runs Reaches
  cases entries.foldlM (verifyEntry crypto) (.initial none) <;> simp

theorem verifyChain_ok_iff {crypto : Crypto} {entries : List Json} {st : ChainState} :
    verifyChain crypto entries = .ok st ↔ entries ≠ [] ∧ ∃ loop, Runs crypto none entries loop ∧
      st = sealChainState loop.state entries.length loop.prevHash := by
  unfold verifyChain verifyChainCore Runs Reaches
  cases entries with
  | nil => simp
  | cons j rest =>
    rw [List.isEmpty_cons, if_neg Bool.false_ne_true]
    cases (j :: rest).foldlM (verifyEntry crypto) (.initial none) with
    | error e => simp only [bind, Except.bind, reduceCtorEq, false_and, exists_false, and_false]
    | ok loop =>
      simp only [bind, Except.bind, pure, Except.pure, Except.ok.injEq, ne_eq, reduceCtorEq, not_false_eq_true,
        true_and, exists_eq_left', eq_comm]

theorem verifyChain_of_stateAfter {crypto : Crypto} {entries : List Json} {s : MutableChainState} (hne : entries ≠ [])
    (h : stateAfter crypto entries = some s) : ∃ st, verifyChain crypto entries = .ok st := by
  obtain ⟨loop, hrun, -⟩ := (stateAfter_eq_some).mp h
  exact ⟨_, (verifyChain_ok_iff).mpr ⟨hne, loop, hrun, rfl⟩⟩

theorem verifyChain_runs {crypto : Crypto} {entries : List Json} {st : ChainState}
    (h : verifyChain crypto entries = .ok st) :
    ∃ loop, Runs crypto none entries loop ∧ st = sealChainState loop.state entries.length loop.prevHash :=
  ((verifyChain_ok_iff).mp h).2

theorem stateAfter_of_verifyChain {crypto : Crypto} {entries : List Json} {st : ChainState}
    (h : verifyChain crypto entries = .ok st) :
    ∃ s, stateAfter crypto entries = some s ∧ st.members = s.members ∧ st.approvalPolicy = s.approvalPolicy ∧
      st.environments = s.environments ∧ st.checkpoints = s.checkpoints ∧
      st.pendingProposals = s.pendingProposals := by
  obtain ⟨loop, hrun, rfl⟩ := verifyChain_runs h
  exact ⟨loop.state, (stateAfter_eq_some).mpr ⟨loop, hrun, rfl⟩, rfl, rfl, rfl, rfl, rfl⟩

theorem stateAfter_take {crypto : Crypto} {entries : List Json} {st : ChainState}
    (h : verifyChain crypto entries = .ok st) (n : Nat) : ∃ s, stateAfter crypto (entries.take n) = some s := by
  obtain ⟨loop, hrun, -⟩ := verifyChain_runs h
  obtain ⟨m, hm, -⟩ := reaches_take hrun n
  exact ⟨m.state, (stateAfter_eq_some).mpr ⟨m, hm, rfl⟩⟩

theorem runs_forget {crypto : Crypto} {history : Option ChainHistoryBuilder} {entries : List Json} {loop : LoopState}
    (h : Runs crypto history entries loop) : Runs crypto none entries { loop with history := none } := by
  refine reaches_map (fun loop : LoopState => { loop with history := none }) ?_ h
  intro loop j loop' hstep
  unfold verifyEntry at hstep ⊢
  dsimp only at hstep ⊢
  split at hstep
  · cases hstep
  · split at hstep
    · cases hstep
    · split at hstep
      · cases hstep
      · cases hstep
        rfl

theorem stateAfter_of_runs {crypto : Crypto} {history : Option ChainHistoryBuilder} {entries : List Json}
    {loop : LoopState} (h : Runs crypto history entries loop) : stateAfter crypto entries = some loop.state :=
  (stateAfter_eq_some).mpr ⟨_, runs_forget h, rfl⟩

theorem verifyChain_of_withHistory {crypto : Crypto} {entries : List Json} {st : ChainState} {index : ChainHistoryIndex}
    (h : verifyChainWithHistory crypto entries = .ok (st, index)) : verifyChain crypto entries = .ok st := by
  obtain ⟨⟨st', history'⟩, hcore, hresult⟩ := bind_ok h
  cases hresult
  unfold verifyChainCore at hcore
  split_ifs at hcore with hempty
  obtain ⟨loop, hrun, hloop⟩ := bind_ok hcore
  cases hloop
  exact (verifyChain_ok_iff).mpr ⟨by simpa using hempty, _, runs_forget hrun, rfl⟩

theorem verifyChain_take {crypto : Crypto} {entries : List Json} {st : ChainState}
    (h : verifyChain crypto entries = .ok st) {n : Nat} (hn : 0 < n) :
    ∃ st', verifyChain crypto (entries.take n) = .ok st' := by
  obtain ⟨hne, loop, hrun, -⟩ := (verifyChain_ok_iff).mp h
  obtain ⟨m, hm, -⟩ := reaches_take hrun n
  refine ⟨_, (verifyChain_ok_iff).mpr ⟨?_, m, hm, rfl⟩⟩
  rw [Ne, List.take_eq_nil_iff, not_or]
  exact ⟨by omega, hne⟩

/-! ## Operations a list carries -/

/-- The operation an entry brings in, for itself or in a proposal. -/
def carried : ChainOperation → List ProposableOperation
  | .direct operation => [operation]
  | .propose p => [p.inner]
  | .approve _ => []
  | .withdraw _ => []

def operationsOf (j : Json) : List ProposableOperation :=
  match checkPayloadShape j with
  | some entry => carried entry.operation
  | none => []

def operationsIn (entries : List Json) : List ProposableOperation := entries.flatMap operationsOf

theorem carried_subset {entries : List Json} {j : Json} {entry : ChainEntry} (hj : j ∈ entries)
    (hshape : checkPayloadShape j = some entry) {op : ProposableOperation} (hop : op ∈ carried entry.operation) :
    op ∈ operationsIn entries := by
  simp only [operationsIn, List.mem_flatMap, operationsOf]
  exact ⟨j, hj, by rw [hshape]; exact hop⟩

/-! ## One step -/

theorem Authorized.exists_environment {crypto : Crypto} {s : MutableChainState} {op : ProposableOperation}
    {u : UserId} {fp : KeyFingerprintHex} {m : ChainMember} {d : ChainDevice}
    (auth : Authorized crypto s op u fp m d) :
    ∀ p, op = .deleteEnvironment p → s.environments.get? p.environmentId ≠ none := by
  rintro p rfl hnone
  obtain ⟨⟨environment, henv, -⟩, -⟩ := deleteEnvironmentReason_eq_none auth.rules
  rw [henv] at hnone
  cases hnone

theorem Authorized.userId_eq {crypto : Crypto} {s : MutableChainState} (hk : WellKeyed crypto s)
    {op : ProposableOperation} {u : UserId} {fp : KeyFingerprintHex} {m : ChainMember} {d : ChainDevice}
    (auth : Authorized crypto s op u fp m d) : m.userId = u :=
  hk.member u m (deviceOf_eq_some.mp auth.device).1

theorem soleDevice_get? {device d : ChainDevice} {fp : KeyFingerprintHex}
    (h : (soleDevice device).get? fp = some d) : d = device ∧ fp = device.keyFingerprintHex := by
  rw [soleDevice, OrderedMap.get?_set] at h
  split_ifs at h with hfp
  · exact ⟨(Option.some.inj h).symm, hfp⟩
  · cases h

theorem wellKeyed_initial (crypto : Crypto) : WellKeyed crypto .initial := by
  exact ⟨fun _ _ h => (nomatch h), fun _ _ _ _ h _ => (nomatch h), fun _ _ h => (nomatch h),
    fun _ _ h => (nomatch h)⟩

theorem wellKeyed_withPending {crypto : Crypto} {s : MutableChainState} (hk : WellKeyed crypto s)
    {pending : OrderedMap JsString PendingProposal}
    (h : ∀ k p, pending.get? k = some p → p.proposalHashHex = k) : WellKeyed crypto (withPending s pending) :=
  { hk with pending := h }

theorem wellKeyed_apply {crypto : Crypto} {s : MutableChainState} (hk : WellKeyed crypto s)
    {op : ProposableOperation} {u : UserId} {fp : KeyFingerprintHex} {m : ChainMember} {d : ChainDevice}
    (auth : Authorized crypto s op u fp m d) (seq : Nat) :
    WellKeyed crypto (applyOperation crypto op s seq m.userId) := by
  have hmembers : ∀ v x, (applyOperation crypto op s seq m.userId).members.get? v = some x →
      x.userId = v ∧ ∀ f e, x.devices.get? f = some e →
        e.keyFingerprintHex = f ∧ userFingerprintHex crypto e.encPubHex e.sigPubHex = f := by
    intro v x hx
    rw [get?_members_applyOperation hk op auth.exists_environment] at hx
    have hold : ∀ y, s.members.get? v = some y → y.userId = v ∧ ∀ f e, y.devices.get? f = some e →
        e.keyFingerprintHex = f ∧ userFingerprintHex crypto e.encPubHex e.sigPubHex = f :=
      fun y hy => ⟨hk.member v y hy, fun f e he => hk.device v y f e hy he⟩
    unfold memberAfter at hx
    split at hx
    · split_ifs at hx with hv
      · cases hx
        refine ⟨hv.symm, fun f e he => ?_⟩
        obtain ⟨rfl, rfl⟩ := soleDevice_get? he
        exact ⟨rfl, rfl⟩
      · exact hold x hx
    · split_ifs at hx with hv
      · obtain ⟨y, hy, rfl⟩ := Option.map_eq_some_iff.mp hx
        exact hold y hy
      · exact hold x hx
    · split_ifs at hx with hv
      exact hold x hx
    · obtain ⟨y, hy, rfl⟩ := Option.map_eq_some_iff.mp hx
      refine ⟨(hold y hy).1, fun f e he => ?_⟩
      obtain ⟨e', he', rfl⟩ := Option.map_eq_some_iff.mp ((OrderedMap.get?_mapValues _ _ _).symm.trans he)
      exact (hold y hy).2 f e' he'
    · split_ifs at hx with hv
      · obtain ⟨y, hy, rfl⟩ := Option.map_eq_some_iff.mp hx
        refine ⟨(hold y hy).1, fun f e he => ?_⟩
        rw [memberWithDevice, OrderedMap.get?_set] at he
        split_ifs at he with hf
        · cases he; exact ⟨hf.symm, hf.symm⟩
        · exact (hold y hy).2 f e he
      · exact hold x hx
    · split_ifs at hx with hv
      · obtain ⟨y, hy, rfl⟩ := Option.map_eq_some_iff.mp hx
        refine ⟨(hold y hy).1, fun f e he => ?_⟩
        rw [memberWithoutDevices, OrderedMap.get?_without] at he
        split_ifs at he with hf
        exact (hold y hy).2 f e he
      · exact hold x hx
    · exact hold x hx
  refine ⟨fun v x hx => (hmembers v x hx).1, fun v x f e hx he => (hmembers v x hx).2 f e he, ?_, ?_⟩
  · intro f g hg
    rw [get?_serverGrants_applyOperation hk op auth.exists_environment] at hg
    unfold grantAfter at hg
    split at hg
    · split_ifs at hg with hf
      · cases hg; exact hf.symm
      · exact hk.grant f g hg
    · split_ifs at hg with hf
      exact hk.grant f g hg
    · obtain ⟨g', hg', rfl⟩ := Option.map_eq_some_iff.mp hg
      exact hk.grant f g' hg'
    · exact hk.grant f g hg
  · intro h p hp
    rw [pendingProposals_applyOperation] at hp
    exact hk.pending h p hp

theorem wellKeyed_genesis {crypto : Crypto} {p : GenesisPayload} {actor : ChainActor} (seq : Nat)
    (hfp : userFingerprintHex crypto p.encPubHex p.sigPubHex = actor.keyFingerprintHex) :
    WellKeyed crypto (applyGenesis p actor seq .initial) := by
  refine ⟨?_, ?_, fun f g h => (nomatch h), fun h q hq => (nomatch hq)⟩
  · intro v x hx
    have hx := (OrderedMap.get?_set _ _ _ _).symm.trans hx
    split_ifs at hx with hv
    · cases hx; exact hv.symm
    · cases hx
  · intro v x f e hx he
    have hx := (OrderedMap.get?_set _ _ _ _).symm.trans hx
    split_ifs at hx with hv
    · cases hx
      obtain ⟨rfl, rfl⟩ := soleDevice_get? he
      exact ⟨rfl, hfp⟩
    · cases hx

theorem genesis_fingerprint {crypto : Crypto} {entry : ChainEntry} {s : MutableChainState} {p : GenesisPayload}
    {sigPubHex : JsString} (hop : entry.operation = .direct (.genesis p))
    (h : resolveActorSigPub crypto entry s = .ok sigPubHex) :
    userFingerprintHex crypto p.encPubHex p.sigPubHex = entry.actor.keyFingerprintHex := by
  unfold resolveActorSigPub at h
  rw [hop] at h
  dsimp only at h
  split_ifs at h with hne
  exact not_not.mp hne

theorem genesis_first {crypto : Crypto} {loop loop' : LoopState} {j : Json} {entry : ChainEntry}
    {hash : JsString} {applied : Option AppliedOperation}
    (h : AcceptedStep crypto loop j loop' entry hash applied) {p : GenesisPayload}
    (hop : entry.operation = .direct (.genesis p)) : loop.seq = 0 ∧ entry.seq = 1 := by
  have hfirst := h.framed.genesis_iff.mp (by rw [hop]; rfl)
  exact ⟨by omega, h.framed.seq_eq.trans hfirst⟩

/-! ## Runs -/

theorem runs_seq {crypto : Crypto} {history : Option ChainHistoryBuilder} {entries : List Json} {loop : LoopState}
    (h : Runs crypto history entries loop) : loop.seq = entries.length := by
  refine reaches_induction h (P := fun pre loop => loop.seq = pre.length) rfl ?_
  intro pre j m m' _ _ hm hstep
  obtain ⟨entry, hash, applied, hacc⟩ := verifyEntry_ok hstep
  rw [hacc.seq_eq, hm, List.length_append, List.length_singleton]

theorem runs_initial {crypto : Crypto} {history : Option ChainHistoryBuilder} {entries : List Json}
    {loop : LoopState} (h : Runs crypto history entries loop) (hseq : loop.seq = 0) :
    loop = .initial history := by
  have hlen := runs_seq h
  rw [hseq] at hlen
  rw [List.length_eq_zero_iff.mp hlen.symm] at h
  exact (reaches_nil _ _).mp h

/-- What holds of every state a run passes through, apart from the pending proposals' own data. -/
structure Sound (crypto : Crypto) (entries : List Json) (s : MutableChainState) : Prop where
  keyed : WellKeyed crypto s
  pending : ∀ h p, s.pendingProposals.get? h = some p → p.inner ∈ operationsIn entries

theorem transition_sound {crypto : Crypto} {entries : List Json} {s s' : MutableChainState} {entry : ChainEntry}
    {hash : JsString} {applied : Option AppliedOperation} (h : Sound crypto entries s)
    (hcarried : ∀ op ∈ carried entry.operation, op ∈ operationsIn entries)
    (hgenesis : ∀ p, entry.operation = .direct (.genesis p) → s = .initial ∧
      userFingerprintHex crypto p.encPubHex p.sigPubHex = entry.actor.keyFingerprintHex)
    (ht : Transition crypto s entry hash s' applied) : Sound crypto entries s' := by
  cases ht with
  | genesis p hop =>
    obtain ⟨rfl, hfp⟩ := hgenesis p hop
    exact ⟨wellKeyed_genesis _ hfp, fun h q hq => by cases hq⟩
  | direct op m d hop hgenesis auth htarget =>
    refine ⟨wellKeyed_apply h.keyed auth _, ?_⟩
    rw [pendingProposals_applyOperation]
    exact h.pending
  | proposed p m d hop auth htarget =>
    have hcases : ∀ k q, (s.pendingProposals.set hash (proposalOf entry.seq p hash m d)).get? k = some q →
        (q.proposalHashHex = k ∧ q.inner ∈ operationsIn entries) := by
      intro k q hq
      rw [OrderedMap.get?_set] at hq
      split_ifs at hq with hk
      · cases hq; exact ⟨hk.symm, hcarried _ (by rw [hop]; simp [carried, proposalOf])⟩
      · exact ⟨h.keyed.pending k q hq, h.pending k q hq⟩
    exact ⟨wellKeyed_withPending h.keyed fun k q hq => (hcases k q hq).1, fun k q hq => (hcases k q hq).2⟩
  | voted href pending m d hop hactor howner hpending hvote =>
    have hcases : ∀ k q,
        (s.pendingProposals.set href (withVote pending (voteOf (actorContextOf m d)))).get? k = some q →
        (q.proposalHashHex = k ∧ q.inner ∈ operationsIn entries) := by
      intro k q hq
      rw [OrderedMap.get?_set] at hq
      split_ifs at hq with hk
      · cases hq; exact ⟨(h.keyed.pending _ pending hpending).trans hk.symm, h.pending _ pending hpending⟩
      · exact ⟨h.keyed.pending k q hq, h.pending k q hq⟩
    exact ⟨wellKeyed_withPending h.keyed fun k q hq => (hcases k q hq).1, fun k q hq => (hcases k q hq).2⟩
  | completed href pending policy m d proposer device hop hactor howner hpending hvote hpolicy hquorum auth =>
    have hcases : ∀ k q, (s.pendingProposals.delete pending.proposalHashHex).get? k = some q →
        s.pendingProposals.get? k = some q := by
      intro k q hq
      rw [OrderedMap.get?_delete] at hq
      split_ifs at hq
      exact hq
    rw [pendingProposals_applyOperation]
    exact ⟨wellKeyed_withPending (wellKeyed_apply h.keyed auth _)
      fun k q hq => h.keyed.pending k q (hcases k q hq), fun k q hq => h.pending k q (hcases k q hq)⟩
  | withdrawn href pending m d hop hactor hpending hright =>
    have hcases : ∀ k q, (s.pendingProposals.delete pending.proposalHashHex).get? k = some q →
        s.pendingProposals.get? k = some q := by
      intro k q hq
      rw [OrderedMap.get?_delete] at hq
      split_ifs at hq
      exact hq
    exact ⟨wellKeyed_withPending h.keyed fun k q hq => h.keyed.pending k q (hcases k q hq),
      fun k q hq => h.pending k q (hcases k q hq)⟩

theorem sound_initial (crypto : Crypto) (entries : List Json) : Sound crypto entries .initial :=
  ⟨wellKeyed_initial crypto, fun h p hp => by cases hp⟩

theorem step_genesis {crypto : Crypto} {history : Option ChainHistoryBuilder} {pre : List Json}
    {loop loop' : LoopState} {j : Json} {entry : ChainEntry} {hash : JsString} {applied : Option AppliedOperation}
    (hrun : Runs crypto history pre loop) (h : AcceptedStep crypto loop j loop' entry hash applied) :
    ∀ p, entry.operation = .direct (.genesis p) → loop.state = .initial ∧
      userFingerprintHex crypto p.encPubHex p.sigPubHex = entry.actor.keyFingerprintHex := by
  intro p hop
  obtain ⟨sigPubHex, hsig, -⟩ := h.signature
  refine ⟨?_, genesis_fingerprint hop hsig⟩
  rw [runs_initial hrun (genesis_first h hop).1]
  rfl

theorem runs_sound_of_subset {crypto : Crypto} {history : Option ChainHistoryBuilder} {entries : List Json}
    {loop : LoopState} (h : Runs crypto history entries loop) {all : List Json}
    (hsub : ∀ j ∈ entries, j ∈ all) : Sound crypto all loop.state := by
  refine reaches_induction h (P := fun _ loop => Sound crypto all loop.state) (sound_initial crypto all) ?_
  intro pre j m m' hpre hrun hm hstep
  obtain ⟨entry, hash, applied, hacc⟩ := verifyEntry_ok hstep
  have hj : j ∈ all := hsub j (hpre.subset (by simp))
  exact transition_sound hm (fun op hop => carried_subset hj hacc.shape hop) (step_genesis hrun hacc)
    hacc.transition

theorem runs_sound {crypto : Crypto} {history : Option ChainHistoryBuilder} {entries : List Json}
    {loop : LoopState} (h : Runs crypto history entries loop) : Sound crypto entries loop.state :=
  runs_sound_of_subset h fun _ hj => hj

theorem approveVoteReason_eq_none {timestampMs : Nat} {actor : ActorContext} {pending : PendingProposal}
    {s : MutableChainState} (h : approveVoteReason timestampMs actor pending s = none) :
    (∀ signer ∈ approvalSignersOf pending, signer.userId = actor.userId → voteDevice s signer = none) ∧
      isApprovalTarget pending.inner s.approvalPolicy = true ∧ timestampMs ≤ pending.expiresAtMs := by
  simp only [approveVoteReason, refuse_else_eq_none] at h
  obtain ⟨hlive, htarget, hexpired⟩ := h
  refine ⟨fun signer hsigner huser => ?_, by simpa using htarget, by omega⟩
  simp only [List.any_eq_true, not_exists, not_and, Bool.and_eq_true, decide_eq_true_eq] at hlive
  simpa using hlive signer hsigner huser

/-- How an operation came to be applied: by its own entry, or by an approve of its proposal. -/
inductive AppliedBy (s : MutableChainState) (entry : ChainEntry) (op : ProposableOperation) (u : UserId)
    (fp : KeyFingerprintHex) : Prop
  | entry (hop : entry.operation = .direct op) (hgenesis : ∀ p, op ≠ .genesis p) (huser : u = entry.actor.userId)
      (hfp : fp = entry.actor.keyFingerprintHex) (htarget : isApprovalTarget op s.approvalPolicy = false)
  | approve (h : JsString) (pending : PendingProposal) (hop : entry.operation = .approve h)
      (hpending : s.pendingProposals.get? h = some pending) (hinner : pending.inner = op)
      (huser : u = pending.proposerUserId) (hfp : fp = pending.proposerKeyFingerprintHex)
      (htarget : isApprovalTarget op s.approvalPolicy = true)

/-- An accepted entry starts the chain, only moves proposals about, or applies an operation. -/
inductive Outcome (crypto : Crypto) (entries : List Json) (n : Nat) (s : MutableChainState) (entry : ChainEntry) :
    MutableChainState → Option AppliedOperation → Prop
  | genesis (p : GenesisPayload) (hop : entry.operation = .direct (.genesis p)) (hs : s = .initial) (hn : n = 0)
      (hmem : .genesis p ∈ operationsIn entries)
      (hfp : userFingerprintHex crypto p.encPubHex p.sigPubHex = entry.actor.keyFingerprintHex) :
      Outcome crypto entries n s entry (applyGenesis p entry.actor 1 .initial)
        (some { operation := .genesis p, actorUserId := entry.actor.userId })
  | waits (pending : OrderedMap JsString PendingProposal) (m : ChainMember) (d : ChainDevice)
      (hactor : deviceOf s.members entry.actor.userId entry.actor.keyFingerprintHex = some (m, d)) :
      Outcome crypto entries n s entry (withPending s pending) none
  | applies (op : ProposableOperation) (u : UserId) (fp : KeyFingerprintHex) (m : ChainMember) (d : ChainDevice)
      (pending : OrderedMap JsString PendingProposal) (hmem : op ∈ operationsIn entries)
      (auth : Authorized crypto s op u fp m d) (happlied : AppliedBy s entry op u fp) :
      Outcome crypto entries n s entry (withPending (applyOperation crypto op s (n + 1) m.userId) pending)
        (some { operation := op, actorUserId := m.userId })

theorem step_outcome {crypto : Crypto} {history : Option ChainHistoryBuilder} {pre all : List Json}
    {loop loop' : LoopState} {j : Json} {entry : ChainEntry} {hash : JsString} {applied : Option AppliedOperation}
    (hrun : Runs crypto history pre loop) (hacc : AcceptedStep crypto loop j loop' entry hash applied)
    (hall : pre ++ [j] <+: all) : Outcome crypto all loop.seq loop.state entry loop'.state applied := by
  have hj : j ∈ all := hall.subset (by simp)
  have hsound : Sound crypto all loop.state := runs_sound_of_subset hrun fun x hx => hall.subset (by simp [hx])
  have hseq := hacc.framed.seq_eq
  have hcarried := fun (op : ProposableOperation) (hop : op ∈ carried entry.operation) => carried_subset hj hacc.shape hop
  have ht := hacc.transition
  generalize hs' : loop'.state = s' at ht
  cases ht with
  | genesis p hop =>
    obtain ⟨hinit, hfp⟩ := step_genesis hrun hacc p hop
    obtain ⟨hzero, hone⟩ := genesis_first hacc hop
    rw [hinit, hone]
    exact .genesis p hop rfl hzero (hcarried _ (by rw [hop]; simp [carried])) hfp
  | direct op x d hop hne auth htarget =>
    rw [hseq, ← show withPending _ _ = applyOperation crypto op loop.state (loop.seq + 1) x.userId from rfl]
    exact .applies op _ _ x d _ (hcarried _ (by rw [hop]; simp [carried])) auth (.entry hop hne rfl rfl htarget)
  | proposed p x d hop auth htarget => exact .waits _ x d auth.device
  | voted href pending x d hop hactor howner hp hvote => exact .waits _ x d hactor
  | completed href pending policy x d proposer device hop hactor howner hp hvote hpolicy hquorum auth =>
    rw [hseq]
    exact .applies _ _ _ proposer device _ (hsound.pending _ _ hp) auth
      (.approve href pending hop hp rfl rfl rfl (approveVoteReason_eq_none hvote).2.1)
  | withdrawn href pending x d hop hactor hp hright => exact .waits _ x d hactor

/-- The induction rule for the derived state. `Q` is what the list's operations all satisfy. -/
theorem state_induction {crypto : Crypto} {history : Option ChainHistoryBuilder} {entries : List Json}
    {loop : LoopState} (hrun : Runs crypto history entries loop) {I : Nat → MutableChainState → Prop}
    {Q : ProposableOperation → Prop} (hQ : ∀ op ∈ operationsIn entries, Q op) (h0 : I 0 .initial)
    (hwait : ∀ n s u fp m d, deviceOf s.members u fp = some (m, d) → I n s → I (n + 1) s)
    (hpending : ∀ n s pending, I n s → I n (withPending s pending))
    (hgenesis : ∀ p actor, Q (.genesis p) →
      userFingerprintHex crypto p.encPubHex p.sigPubHex = actor.keyFingerprintHex →
      I 1 (applyGenesis p actor 1 .initial))
    (happly : ∀ n s op u fp m d, Q op → WellKeyed crypto s → I n s → Authorized crypto s op u fp m d →
      I (n + 1) (applyOperation crypto op s (n + 1) m.userId)) : I loop.seq loop.state := by
  refine reaches_induction hrun (P := fun _ loop => I loop.seq loop.state) h0 ?_
  intro pre j m m' hpre hreach hm hstep
  obtain ⟨entry, hash, applied, hacc⟩ := verifyEntry_ok hstep
  have hkeyed : WellKeyed crypto m.state := (runs_sound hreach).keyed
  have hout := step_outcome hreach hacc hpre
  rw [hacc.seq_eq]
  generalize m'.state = s' at hout
  cases hout with
  | genesis p hop hs hn hmem hfp => rw [hn]; exact hgenesis p _ (hQ _ hmem) hfp
  | waits pending x d hactor => exact hpending _ _ _ (hwait _ _ _ _ x d hactor hm)
  | applies op u fp x d pending hmem auth happlied =>
    exact hpending _ _ _ (happly _ _ op u fp x d (hQ _ hmem) hkeyed hm auth)

theorem suffix_induction {crypto : Crypto} {history : Option ChainHistoryBuilder} {pre suf : List Json}
    {loop loop' : LoopState} (hrun : Runs crypto history pre loop)
    (hreach : Reaches (verifyEntry crypto) loop suf loop') {P : List Json → LoopState → Prop} (h0 : P [] loop)
    (hstep : ∀ mid j loop₁ loop₂ entry hash applied, mid ++ [j] <+: suf → Runs crypto history (pre ++ mid) loop₁ →
      P mid loop₁ → AcceptedStep crypto loop₁ j loop₂ entry hash applied → P (mid ++ [j]) loop₂) : P suf loop' := by
  refine reaches_induction hreach (P := P) h0 ?_
  intro mid j m m' hmid hm hP hj
  obtain ⟨entry, hash, applied, hacc⟩ := verifyEntry_ok hj
  exact hstep mid j m m' entry hash applied hmid ((reaches_append _ _ _ _).mpr ⟨loop, hrun, hm⟩) hP hacc

theorem runs_of_stateAfter_take {crypto : Crypto} {entries : List Json} {a b : Nat} (hab : a ≤ b)
    {sa sb : MutableChainState} (ha : stateAfter crypto (entries.take a) = some sa)
    (hb : stateAfter crypto (entries.take b) = some sb) :
    ∃ loop loop', Runs crypto none (entries.take a) loop ∧ loop.state = sa ∧
      Reaches (verifyEntry crypto) loop ((entries.take b).drop a) loop' ∧ loop'.state = sb := by
  obtain ⟨la, hla, rfl⟩ := (stateAfter_eq_some).mp ha
  obtain ⟨lb, hlb, rfl⟩ := (stateAfter_eq_some).mp hb
  obtain ⟨m, hm, hrest⟩ := reaches_take hlb a
  rw [List.take_take, Nat.min_eq_left hab] at hm
  exact ⟨m, lb, hm, congrArg LoopState.state (reaches_unique hm hla), hrest, rfl⟩

/-! ## The entries of an accepted list -/

/-- The entry at position `n`, at seq `n + 1`: what it says, the states around it, and under whose key it is signed. -/
structure EntryAt (crypto : Crypto) (entries : List Json) (n : Nat) (s : MutableChainState) (entry : ChainEntry)
    (hash : JsString) (s' : MutableChainState) (applied : Option AppliedOperation) : Prop where
  before : stateAfter crypto (entries.take n) = some s
  read : ∃ j, entries[n]? = some j ∧ checkPayloadShape j = some entry
  seq_eq : entry.seq = n + 1
  hash_eq : computeChainEntryHash crypto entry = some hash
  evaluated : evaluateEntry crypto entry hash s = .ok (s', applied)
  after : stateAfter crypto (entries.take (n + 1)) = some s'
  signed : ∃ sigPubHex, resolveActorSigPub crypto entry s = .ok sigPubHex ∧ verifyEntrySignature crypto entry sigPubHex = true

theorem EntryAt.transition {crypto : Crypto} {entries : List Json} {n : Nat} {s s' : MutableChainState}
    {entry : ChainEntry} {hash : JsString} {applied : Option AppliedOperation}
    (h : EntryAt crypto entries n s entry hash s' applied) : Transition crypto s entry hash s' applied :=
  evaluateEntry_ok h.evaluated

theorem entryAt_of_step {crypto : Crypto} {history : Option ChainHistoryBuilder} {entries pre : List Json} {j : Json}
    {loop loop' : LoopState} {entry : ChainEntry} {hash : JsString} {applied : Option AppliedOperation}
    (hpre : pre ++ [j] <+: entries) (hrun : Runs crypto history pre loop) (hstep : verifyEntry crypto loop j = .ok loop')
    (hacc : AcceptedStep crypto loop j loop' entry hash applied) :
    EntryAt crypto entries pre.length loop.state entry hash loop'.state applied := by
  obtain ⟨htake, hget⟩ := take_of_snoc_prefix hpre
  have hnext : entries.take (pre.length + 1) = pre ++ [j] := by
    rw [List.take_add_one, htake, hget]; rfl
  refine ⟨?_, ⟨j, hget, hacc.shape⟩, ?_, hacc.hash_eq, hacc.evaluated, ?_, hacc.signature⟩
  · rw [htake]; exact stateAfter_of_runs hrun
  · rw [hacc.framed.seq_eq, runs_seq hrun]
  · rw [hnext]
    exact stateAfter_of_runs ((reaches_snoc _ _ _ _).mpr ⟨loop, hrun, hstep⟩)

theorem entryAt_of_stateAfter {crypto : Crypto} {entries : List Json} {n : Nat} (hn : n < entries.length)
    {s' : MutableChainState} (h : stateAfter crypto (entries.take (n + 1)) = some s') :
    ∃ s entry hash applied, EntryAt crypto entries n s entry hash s' applied := by
  obtain ⟨loop', hrun, rfl⟩ := (stateAfter_eq_some).mp h
  have hsplit : entries.take (n + 1) = entries.take n ++ [entries[n]] := (List.take_append_getElem hn).symm
  rw [hsplit] at hrun
  obtain ⟨loop, hloop, hstep⟩ := (reaches_snoc _ _ _ _).mp hrun
  obtain ⟨entry, hash, applied, hacc⟩ := verifyEntry_ok hstep
  have hpre : entries.take n ++ [entries[n]] <+: entries := hsplit ▸ List.take_prefix _ _
  have hlen : (entries.take n).length = n := by rw [List.length_take]; omega
  exact ⟨_, _, _, _, hlen ▸ entryAt_of_step hpre hloop hstep hacc⟩

theorem entryAt_of_verifyChain {crypto : Crypto} {entries : List Json} {st : ChainState}
    (h : verifyChain crypto entries = .ok st) {n : Nat} (hn : n < entries.length) :
    ∃ s entry hash s' applied, EntryAt crypto entries n s entry hash s' applied := by
  obtain ⟨s', hs'⟩ := stateAfter_take h (n + 1)
  obtain ⟨s, entry, hash, applied, hat⟩ := entryAt_of_stateAfter hn hs'
  exact ⟨s, entry, hash, s', applied, hat⟩

/-- The induction rule by position, from the state after the first `a` entries on. -/
theorem entry_induction {crypto : Crypto} {entries : List Json} {a : Nat} {sa : MutableChainState}
    (ha : stateAfter crypto (entries.take a) = some sa) {P : Nat → MutableChainState → Prop} (h0 : P a sa)
    (hstep : ∀ n s entry hash s' applied, a ≤ n → n < entries.length →
      EntryAt crypto entries n s entry hash s' applied → P n s → P (n + 1) s')
    {n : Nat} (han : a ≤ n) (hn : n ≤ entries.length) {s : MutableChainState}
    (hs : stateAfter crypto (entries.take n) = some s) : P n s := by
  induction n, han using Nat.le_induction generalizing s with
  | base => exact Option.some.inj (ha.symm.trans hs) ▸ h0
  | succ n han ih =>
    obtain ⟨s₁, entry, hash, applied, hat⟩ := entryAt_of_stateAfter (Nat.lt_of_succ_le hn) hs
    exact hstep n s₁ entry hash s applied han (Nat.lt_of_succ_le hn) hat (ih (Nat.le_of_succ_le hn) hat.before)

theorem stateAfter_nil (crypto : Crypto) : stateAfter crypto [] = some .initial := rfl

theorem stateAfter_append {base ext : List Json} {crypto : Crypto} {s : MutableChainState}
    (h : stateAfter crypto base = some s) : stateAfter crypto ((base ++ ext).take base.length) = some s := by
  rw [List.take_left]; exact h

theorem wellKeyed_of_stateAfter {crypto : Crypto} {entries : List Json} {s : MutableChainState}
    (h : stateAfter crypto entries = some s) : WellKeyed crypto s := by
  obtain ⟨loop, hrun, rfl⟩ := (stateAfter_eq_some).mp h
  exact (runs_sound hrun).keyed

theorem EntryAt.keyed {crypto : Crypto} {entries : List Json} {n : Nat} {s s' : MutableChainState}
    {entry : ChainEntry} {hash : JsString} {applied : Option AppliedOperation}
    (h : EntryAt crypto entries n s entry hash s' applied) : WellKeyed crypto s := wellKeyed_of_stateAfter h.before

theorem entryAt_unique {crypto : Crypto} {entries : List Json} {n : Nat} {s₁ s₂ s₁' s₂' : MutableChainState}
    {entry₁ entry₂ : ChainEntry} {hash₁ hash₂ : JsString} {applied₁ applied₂ : Option AppliedOperation}
    (h₁ : EntryAt crypto entries n s₁ entry₁ hash₁ s₁' applied₁)
    (h₂ : EntryAt crypto entries n s₂ entry₂ hash₂ s₂' applied₂) :
    s₁ = s₂ ∧ entry₁ = entry₂ ∧ hash₁ = hash₂ ∧ s₁' = s₂' ∧ applied₁ = applied₂ := by
  obtain ⟨j₁, hj₁, hshape₁⟩ := h₁.read
  obtain ⟨j₂, hj₂, hshape₂⟩ := h₂.read
  have hs := Option.some.inj (h₁.before.symm.trans h₂.before)
  have hj := Option.some.inj (hj₁.symm.trans hj₂)
  subst hs hj
  have he := Option.some.inj (hshape₁.symm.trans hshape₂)
  subst he
  have hh := Option.some.inj (h₁.hash_eq.symm.trans h₂.hash_eq)
  subst hh
  have heval := Except.ok.inj (h₁.evaluated.symm.trans h₂.evaluated)
  exact ⟨rfl, rfl, rfl, congrArg Prod.fst heval, congrArg Prod.snd heval⟩

theorem EntryAt.lt_length {crypto : Crypto} {entries : List Json} {n : Nat} {s s' : MutableChainState}
    {entry : ChainEntry} {hash : JsString} {applied : Option AppliedOperation}
    (h : EntryAt crypto entries n s entry hash s' applied) : n < entries.length := by
  obtain ⟨j, hj, -⟩ := h.read
  exact (List.getElem?_eq_some_iff.mp hj).1

theorem EntryAt.step {crypto : Crypto} {entries : List Json} {n : Nat} {s s' : MutableChainState}
    {entry : ChainEntry} {hash : JsString} {applied : Option AppliedOperation}
    (h : EntryAt crypto entries n s entry hash s' applied) :
    ∃ loop loop' j, Runs crypto none (entries.take n) loop ∧ loop.state = s ∧ loop.seq = n ∧ loop'.state = s' ∧
      entries.take n ++ [j] <+: entries ∧ AcceptedStep crypto loop j loop' entry hash applied := by
  obtain ⟨loop', hrun, rfl⟩ := (stateAfter_eq_some).mp h.after
  have hn := h.lt_length
  have hsplit : entries.take (n + 1) = entries.take n ++ [entries[n]] := (List.take_append_getElem hn).symm
  have hpre : entries.take n ++ [entries[n]] <+: entries := hsplit ▸ List.take_prefix _ _
  have hlen : (entries.take n).length = n := by rw [List.length_take]; omega
  rw [hsplit] at hrun
  obtain ⟨loop, hloop, hstep⟩ := (reaches_snoc _ _ _ _).mp hrun
  obtain ⟨entry₁, hash₁, applied₁, hacc⟩ := verifyEntry_ok hstep
  have hat : EntryAt crypto entries n loop.state entry₁ hash₁ loop'.state applied₁ :=
    hlen ▸ entryAt_of_step hpre hloop hstep hacc
  obtain ⟨hs, rfl, rfl, -, rfl⟩ := entryAt_unique hat h
  exact ⟨loop, loop', entries[n], hloop, hs, (runs_seq hloop).trans hlen, rfl, hpre, hacc⟩

theorem EntryAt.outcome {crypto : Crypto} {entries : List Json} {n : Nat} {s s' : MutableChainState}
    {entry : ChainEntry} {hash : JsString} {applied : Option AppliedOperation}
    (h : EntryAt crypto entries n s entry hash s' applied) : Outcome crypto entries n s entry s' applied := by
  obtain ⟨loop, loop', j, hrun, rfl, rfl, rfl, hpre, hacc⟩ := h.step
  exact step_outcome hrun hacc hpre

theorem EntryAt.genesis {crypto : Crypto} {entries : List Json} {n : Nat} {s s' : MutableChainState}
    {entry : ChainEntry} {hash : JsString} {applied : Option AppliedOperation}
    (h : EntryAt crypto entries n s entry hash s' applied) {p : GenesisPayload}
    (hop : entry.operation = .direct (.genesis p)) : n = 0 ∧ s = .initial := by
  obtain ⟨loop, loop', j, hrun, rfl, rfl, rfl, -, hacc⟩ := h.step
  exact ⟨(genesis_first hacc hop).1, (step_genesis hrun hacc p hop).1⟩

end Maruhi.Chain
