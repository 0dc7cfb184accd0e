import Maruhi.Chain.Verify

/-!
# What one accepted entry does

`Transition` lists every way an entry is accepted, with the checks it passed. Invariants are
proved over it and over `run_induction`, never over the loop itself.
-/

open Run

namespace Maruhi.Chain

/-- The rules let the device `fp` of `userId` do `operation`. -/
structure Authorized (crypto : Crypto) (s : MutableChainState) (operation : ProposableOperation)
    (userId : UserId) (fp : KeyFingerprintHex) (m : ChainMember) (d : ChainDevice) : Prop where
  device : deviceOf s.members userId fp = some (m, d)
  role : roleReason operation (actorContextOf m d) = none
  rules : consensusReason crypto operation (actorContextOf m d) s = none

def withPending (s : MutableChainState) (pending : OrderedMap JsString PendingProposal) : MutableChainState :=
  { s with pendingProposals := pending }

def proposalOf (seq : Nat) (p : ProposePayload) (hash : JsString) (m : ChainMember) (d : ChainDevice) :
    PendingProposal where
  proposalSeq := seq
  proposalHashHex := hash
  proposerUserId := m.userId
  proposerKeyFingerprintHex := d.keyFingerprintHex
  proposerRoleAtProposal := (effectivePermissionOf m d.toDeviceCap).role
  inner := p.inner
  expiresAtMs := p.expiresAtMs
  approvals := []

def withVote (pending : PendingProposal) (vote : ApprovalVote) : PendingProposal :=
  { pending with approvals := pending.approvals ++ [vote] }

inductive Transition (crypto : Crypto) (s : MutableChainState) (entry : ChainEntry) (hash : JsString) :
    MutableChainState → Option AppliedOperation → Prop
  | genesis (p : GenesisPayload) (hop : entry.operation = .direct (.genesis p)) :
      Transition crypto s entry hash (applyGenesis p entry.actor entry.seq s)
        (some { operation := .genesis p, actorUserId := entry.actor.userId })
  | direct (operation : ProposableOperation) (m : ChainMember) (d : ChainDevice)
      (hop : entry.operation = .direct operation) (hgenesis : ∀ p, operation ≠ .genesis p)
      (auth : Authorized crypto s operation entry.actor.userId entry.actor.keyFingerprintHex m d)
      (htarget : isApprovalTarget operation s.approvalPolicy = false) :
      Transition crypto s entry hash (applyOperation crypto operation s entry.seq m.userId)
        (some { operation, actorUserId := m.userId })
  | proposed (p : ProposePayload) (m : ChainMember) (d : ChainDevice) (hop : entry.operation = .propose p)
      (auth : Authorized crypto s p.inner entry.actor.userId entry.actor.keyFingerprintHex m d)
      (htarget : isApprovalTarget p.inner s.approvalPolicy = true) :
      Transition crypto s entry hash
        (withPending s (s.pendingProposals.set hash (proposalOf entry.seq p hash m d))) none
  | voted (h : JsString) (pending : PendingProposal) (m : ChainMember) (d : ChainDevice)
      (hop : entry.operation = .approve h)
      (hactor : deviceOf s.members entry.actor.userId entry.actor.keyFingerprintHex = some (m, d))
      (howner : (effectivePermissionOf m d.toDeviceCap).role = .owner)
      (hpending : s.pendingProposals.get? h = some pending)
      (hvote : approveVoteReason entry.timestampMs (actorContextOf m d) pending s = none) :
      Transition crypto s entry hash
        (withPending s (s.pendingProposals.set h (withVote pending (voteOf (actorContextOf m d))))) none
  | completed (h : JsString) (pending : PendingProposal) (policy : ApprovalPolicy) (m : ChainMember)
      (d : ChainDevice) (proposer : ChainMember) (device : ChainDevice) (hop : entry.operation = .approve h)
      (hactor : deviceOf s.members entry.actor.userId entry.actor.keyFingerprintHex = some (m, d))
      (howner : (effectivePermissionOf m d.toDeviceCap).role = .owner)
      (hpending : s.pendingProposals.get? h = some pending)
      (hvote : approveVoteReason entry.timestampMs (actorContextOf m d) pending s = none)
      (hpolicy : s.approvalPolicy = some policy)
      (hquorum : policy.requiredApprovals ≤
        countOwnerVotes s (approvalSignersOf pending ++ [voteOf (actorContextOf m d)]))
      (auth : Authorized crypto s pending.inner pending.proposerUserId pending.proposerKeyFingerprintHex
        proposer device) :
      Transition crypto s entry hash
        (withPending (applyOperation crypto pending.inner s entry.seq proposer.userId)
          ((applyOperation crypto pending.inner s entry.seq proposer.userId).pendingProposals.delete
            pending.proposalHashHex))
        (some { operation := pending.inner, actorUserId := proposer.userId })
  | withdrawn (h : JsString) (pending : PendingProposal) (m : ChainMember) (d : ChainDevice)
      (hop : entry.operation = .withdraw h)
      (hactor : deviceOf s.members entry.actor.userId entry.actor.keyFingerprintHex = some (m, d))
      (hpending : s.pendingProposals.get? h = some pending)
      (hright : (effectivePermissionOf m d.toDeviceCap).role = .owner ∨ pending.proposerUserId = m.userId) :
      Transition crypto s entry hash
        (withPending s (s.pendingProposals.delete pending.proposalHashHex)) none

/-! ## Inversion of entry evaluation -/

theorem deviceOf_eq_some {members : OrderedMap UserId ChainMember} {u : UserId} {fp : KeyFingerprintHex}
    {m : ChainMember} {d : ChainDevice} :
    deviceOf members u fp = some (m, d) ↔ members.get? u = some m ∧ m.devices.get? fp = some d := by
  simp only [deviceOf, Option.bind_eq_bind, Option.bind_eq_some_iff, Option.pure_def, Option.some.injEq,
    Prod.mk.injEq]
  constructor
  · rintro ⟨m', hm, d', hd, rfl, rfl⟩; exact ⟨hm, hd⟩
  · rintro ⟨hm, hd⟩; exact ⟨m, hm, d, hd, rfl, rfl⟩

theorem evaluateDirect_ok {crypto : Crypto} {op : ProposableOperation} {actor : ActorContext}
    {s s' : MutableChainState} {seq : Nat} {applied : Option AppliedOperation}
    (h : evaluateDirect crypto op actor s seq = .ok (s', applied)) :
    roleReason op actor = none ∧ isApprovalTarget op s.approvalPolicy = false ∧
      consensusReason crypto op actor s = none ∧ s' = applyOperation crypto op s seq actor.userId ∧
      applied = some { operation := op, actorUserId := actor.userId } := by
  unfold evaluateDirect at h
  split at h
  · cases h
  · rename_i hrole
    split_ifs at h with htarget
    split at h
    · cases h
    · rename_i hrules
      cases h
      exact ⟨hrole, by simpa using htarget, hrules, rfl, rfl⟩

theorem evaluatePropose_ok {crypto : Crypto} {seq : Nat} {p : ProposePayload} {hash : JsString}
    {m : ChainMember} {d : ChainDevice} {s s' : MutableChainState}
    (h : evaluatePropose crypto seq p hash (actorContextOf m d) s = .ok s') :
    roleReason p.inner (actorContextOf m d) = none ∧ isApprovalTarget p.inner s.approvalPolicy = true ∧
      consensusReason crypto p.inner (actorContextOf m d) s = none ∧
      s' = withPending s (s.pendingProposals.set hash (proposalOf seq p hash m d)) := by
  unfold evaluatePropose at h
  split at h
  · cases h
  · rename_i hrole
    split_ifs at h with htarget
    split at h
    · cases h
    · rename_i hrules
      cases h
      exact ⟨hrole, by simpa using htarget, hrules, rfl⟩

theorem completeProposal_ok {crypto : Crypto} {pending : PendingProposal} {s s' : MutableChainState}
    {seq : Nat} {applied : Option AppliedOperation}
    (h : completeProposal crypto pending s seq = .ok (s', applied)) :
    ∃ proposer device,
      Authorized crypto s pending.inner pending.proposerUserId pending.proposerKeyFingerprintHex
        proposer device ∧
      s' = withPending (applyOperation crypto pending.inner s seq proposer.userId)
        ((applyOperation crypto pending.inner s seq proposer.userId).pendingProposals.delete
          pending.proposalHashHex) ∧
      applied = some { operation := pending.inner, actorUserId := proposer.userId } := by
  unfold completeProposal at h
  split at h
  · cases h
  · rename_i proposer device hdev
    simp only at h
    split at h
    · cases h
    · rename_i hrole
      split at h
      · cases h
      · rename_i hrules
        cases h
        exact ⟨proposer, device, ⟨hdev, hrole, hrules⟩, rfl, rfl⟩

theorem evaluateWithdraw_ok {h : JsString} {actor : ActorContext} {s s' : MutableChainState}
    (hok : evaluateWithdraw h actor s = .ok s') :
    ∃ pending, s.pendingProposals.get? h = some pending ∧
      (actor.permission.role = .owner ∨ pending.proposerUserId = actor.userId) ∧
      s' = withPending s (s.pendingProposals.delete pending.proposalHashHex) := by
  unfold evaluateWithdraw at hok
  dsimp only at hok
  split_ifs at hok with hright
  split at hok
  · cases hok
  · rename_i pending hpending
    cases hok
    refine ⟨pending, hpending, ?_, rfl⟩
    simp only [hpending, Option.map_some, Bool.and_eq_true, decide_eq_true_eq, not_and_or, not_not, ne_eq,
      Option.some.injEq] at hright
    exact hright

theorem evaluateApprove_ok {crypto : Crypto} {seq timestampMs : Nat} {h : JsString} {actor : ActorContext}
    {s s' : MutableChainState} {applied : Option AppliedOperation}
    (hok : evaluateApprove crypto seq timestampMs h actor s = .ok (s', applied)) :
    actor.permission.role = .owner ∧ ∃ pending, s.pendingProposals.get? h = some pending ∧
      approveVoteReason timestampMs actor pending s = none ∧
      ((s' = withPending s (s.pendingProposals.set h (withVote pending (voteOf actor))) ∧ applied = none) ∨
        (∃ policy, s.approvalPolicy = some policy ∧
          policy.requiredApprovals ≤ countOwnerVotes s (approvalSignersOf pending ++ [voteOf actor]) ∧
          completeProposal crypto pending s seq = .ok (s', applied))) := by
  unfold evaluateApprove at hok
  split_ifs at hok with hrole
  split at hok
  · cases hok
  · rename_i pending hpending
    split at hok
    · cases hok
    · rename_i hvote
      refine ⟨by simpa using hrole, pending, hpending, hvote, ?_⟩
      dsimp only at hok
      split_ifs at hok with hall
      · cases hok
        exact Or.inl ⟨rfl, rfl⟩
      · refine Or.inr ?_
        cases hpolicy : s.approvalPolicy with
        | none => simp [hpolicy] at hall
        | some policy =>
          refine ⟨policy, rfl, ?_, hok⟩
          simpa [hpolicy] using hall

theorem evaluateEntry_ok {crypto : Crypto} {entry : ChainEntry} {hash : JsString} {s s' : MutableChainState}
    {applied : Option AppliedOperation} (h : evaluateEntry crypto entry hash s = .ok (s', applied)) :
    Transition crypto s entry hash s' applied := by
  unfold evaluateEntry at h
  split at h
  · rename_i p hop
    cases h
    exact .genesis p hop
  · rename_i operation hne
    split at h
    · cases h
    · rename_i m hm
      split at h
      · cases h
      · rename_i d hd
        have hdev := deviceOf_eq_some.mpr ⟨hm, hd⟩
        simp only at h
        split at h
        · rename_i op hop
          obtain ⟨hrole, htarget, hrules, rfl, rfl⟩ := evaluateDirect_ok h
          exact .direct op m d hop (fun p hp => hne p (hp ▸ hop)) ⟨hdev, hrole, hrules⟩ htarget
        · rename_i p hop
          cases hp : evaluatePropose crypto entry.seq p hash (actorContextOf m d) s with
          | error reason => rw [hp] at h; cases h
          | ok t =>
            rw [hp] at h
            obtain ⟨hrole, htarget, hrules, rfl⟩ := evaluatePropose_ok hp
            cases h
            exact .proposed p m d hop ⟨hdev, hrole, hrules⟩ htarget
        · rename_i href hop
          obtain ⟨howner, pending, hpending, hvote, hcases⟩ := evaluateApprove_ok h
          rcases hcases with ⟨rfl, rfl⟩ | ⟨policy, hpolicy, hquorum, hdone⟩
          · exact .voted href pending m d hop hdev howner hpending hvote
          · obtain ⟨proposer, device, auth, rfl, rfl⟩ := completeProposal_ok hdone
            exact .completed href pending policy m d proposer device hop hdev howner hpending hvote hpolicy
              hquorum auth
        · rename_i href hop
          cases hw : evaluateWithdraw href (actorContextOf m d) s with
          | error reason => rw [hw] at h; cases h
          | ok t =>
            rw [hw] at h
            obtain ⟨pending, hpending, hright, rfl⟩ := evaluateWithdraw_ok hw
            cases h
            exact .withdrawn href pending m d hop hdev hpending hright

end Maruhi.Chain
