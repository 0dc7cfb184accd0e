import Maruhi.Checkpoint.Integrity
import Maruhi.Lib.TextOrder
import Mathlib.Data.List.Sort

/-!
# Votes foretold (`approval-rules.ts`)

Before an approve is signed the client says what will become of it. It looks at one proposal of the derived state, a
user and the device at hand; the verifier looks at the appended entry.
-/

open Run Text Maruhi.Chain Maruhi.Checkpoint

namespace Maruhi.Approval

/-! ## The recount -/

/-- The vote's device is a valid device of that person now. -/
def voteIsLive (members : OrderedMap UserId ChainMember) (signer : ApprovalVote) : Bool :=
  (members.get? signer.userId).any fun member => member.devices.has signer.keyFingerprintHex

def ownerOnAnyDevice (member : ChainMember) : Bool :=
  member.devices.values.any fun device => (effectivePermissionOf member device.toDeviceCap).role = .owner

def hasVoted (members : OrderedMap UserId ChainMember) (pending : PendingProposal) (member : ChainMember) : Bool :=
  (approvalSignersOf pending).any fun signer => signer.userId = member.userId && voteIsLive members signer

/-- A pending proposal, its votes counted again under the current policy and members. -/
structure ProposalView where
  proposal : PendingProposal
  target : Bool
  required : Option Nat
  voters : List UserId
  votes : Nat
  needed : Option Int
  eligibleApprovers : List UserId
  expired : Bool

def proposalViewOf (state : ChainState) (proposal : PendingProposal) (nowMs : Nat) : ProposalView :=
  let policy := state.approvalPolicy
  let members := state.members
  let required := policy.map (·.requiredApprovals)
  let voters := (ownerVotersOf members (approvalSignersOf proposal)).keys.insertionSort (· ≤ ·)
  let eligibleApprovers := ((members.values.filter fun member =>
    ownerOnAnyDevice member && !hasVoted members proposal member).map (·.userId)).insertionSort (· ≤ ·)
  { proposal := proposal
    target := isApprovalTarget proposal.inner policy
    required := required
    voters := voters
    votes := voters.length
    -- The next approve is one vote of its own.
    needed := required.map fun (required : Nat) => max 0 ((required : Int) - voters.length - 1)
    eligibleApprovers := eligibleApprovers
    expired := nowMs > proposal.expiresAtMs }

/-! ## What the client foretells -/

inductive VoteRefusal
  | notAMember
  | deviceNotRegistered
  | insufficientRole
  | duplicateApproval
  | approvalNotRequired
  | proposalExpired
  deriving DecidableEq, Repr

inductive VoteEligibility
  | ok (completes : Bool)
  | refused (reason : VoteRefusal) (message : JsString)
  deriving DecidableEq, Repr

section Texts

def notAMemberText : JsString := lit "you are not a chain-derived member of this project"

def deviceNotRegisteredText : JsString :=
  lit "the key on this machine is not one of your active device keys on this project's chain (register it with `maruhi device add` and approve it from a registered device with `maruhi device approve`)"

def insufficientRoleText (member : ChainMember) (device : ChainDevice) : JsString :=
  lit "only an owner can approve (your role: " ++ roleName member.role ++
    (if member.role = .owner then lit ", but this device's key is capped at " ++ roleName device.roleCap else []) ++
    lit " — CRYPTO_SPEC §6.2)"

def duplicateApprovalText (asProposer : Bool) : JsString :=
  if asProposer then
    lit "you proposed this as an owner, so your proposal signature already counts as your vote (duplicate-approval); another owner has to approve"
  else lit "you already approved this with your current key (duplicate-approval); another owner has to approve"

def approvalNotRequiredText (required : Option Nat) : JsString :=
  if required = none then
    lit "the four-eyes policy is off, so this proposal can no longer be approved (approval-not-required); withdraw it — the operation can be run directly"
  else
    lit "the current policy no longer targets this operation, so this proposal can no longer be approved (approval-not-required); withdraw it — the operation can be run directly"

def proposalExpiredText (formatUtcMinutes : Nat → JsString) (expiresAtMs : Nat) : JsString :=
  lit "it expired on " ++ formatUtcMinutes expiresAtMs ++
    lit " by this machine's clock (proposal-expired); ask the proposer to withdraw and re-propose (if this machine's clock is wrong, fix it first)"

end Texts

/-- Judged by the effective role of the signing device. -/
def voteEligibility (formatUtcMinutes : Nat → JsString) (state : ChainState) (userId : UserId)
    (signingDeviceFingerprintHex : KeyFingerprintHex) (view : ProposalView) : VoteEligibility :=
  match state.members.get? userId with
  | none => .refused .notAMember notAMemberText
  | some member =>
    match member.devices.get? signingDeviceFingerprintHex with
    | none => .refused .deviceNotRegistered deviceNotRegisteredText
    | some device =>
      if (effectivePermissionOf member device.toDeviceCap).role ≠ .owner then
        .refused .insufficientRole (insufficientRoleText member device)
      else if hasVoted state.members view.proposal member then
        .refused .duplicateApproval (duplicateApprovalText (view.proposal.proposerUserId = userId))
      else if !view.target then .refused .approvalNotRequired (approvalNotRequiredText view.required)
      else if view.expired then
        .refused .proposalExpired (proposalExpiredText formatUtcMinutes view.proposal.expiresAtMs)
      else .ok (view.needed = some 0)

def VoteEligibility.reason? : VoteEligibility → Option VoteRefusal
  | .ok _ => none
  | .refused reason _ => some reason

/-- The name the verifier has for what the client foretells. -/
def VoteRefusal.asInvalid : VoteRefusal → ChainInvalidReason
  | .notAMember => .actorNotMember
  | .deviceNotRegistered => .actorKeyMismatch
  | .insufficientRole => .insufficientRole
  | .duplicateApproval => .duplicateApproval
  | .approvalNotRequired => .approvalNotRequired
  | .proposalExpired => .proposalExpired

theorem VoteRefusal.asInvalid_inj {a b : VoteRefusal} : a.asInvalid = b.asInvalid ↔ a = b := by
  cases a <;> cases b <;> simp [asInvalid]

/-! ## Two counts that agree -/

theorem voteDevice_isSome (s : MutableChainState) (signer : ApprovalVote) :
    (voteDevice s signer).isSome = voteIsLive s.members signer := by
  unfold voteDevice deviceOf voteIsLive OrderedMap.has
  cases s.members.get? signer.userId with
  | none => rfl
  | some member => cases h : member.devices.get? signer.keyFingerprintHex <;> simp [h]

theorem countableVote_live {members : OrderedMap UserId ChainMember} {signer : ApprovalVote}
    (h : countableVote members signer = true) : voteIsLive members signer = true := by
  unfold countableVote at h
  split at h
  · rename_i member device hdevice
    obtain ⟨hmember, hdevice⟩ := deviceOf_eq_some.mp hdevice
    simp [voteIsLive, hmember, OrderedMap.has, hdevice]
  · cases h

theorem size_setOf_snoc {α : Type} [DecidableEq α] {l : List α} {a : α} (h : a ∉ l) :
    (OrderedMap.setOf (l ++ [a])).size = (OrderedMap.setOf l).size + 1 := by
  have hnone := OrderedMap.get?_eq_none_of_not_mem_keys (mt (OrderedMap.mem_keys_setOf l a).mp h)
  have hset : OrderedMap.setOf (l ++ [a]) = (OrderedMap.setOf l).set a () := by
    unfold OrderedMap.setOf
    rw [List.foldl_append]
    rfl
  rw [hset, ← OrderedMap.length_keys, OrderedMap.keys_set_of_get?_none () hnone, List.length_append,
    OrderedMap.length_keys]
  rfl

theorem countOwnerVotes_snoc {s : MutableChainState} (signers : List ApprovalVote) (vote : ApprovalVote)
    (hcounts : countableVote s.members vote = true)
    (hfresh : ∀ signer ∈ signers, signer.userId = vote.userId → voteIsLive s.members signer = false) :
    countOwnerVotes s (signers ++ [vote]) = (ownerVotersOf s.members signers).size + 1 := by
  unfold countOwnerVotes ownerVotersOf
  rw [List.filter_append, List.filter_cons, if_pos hcounts, List.filter_nil, List.map_append, List.map_cons, List.map_nil]
  refine size_setOf_snoc fun h => ?_
  obtain ⟨signer, hsigner, hu⟩ := List.mem_map.mp h
  obtain ⟨hmem, hlive⟩ := List.mem_filter.mp hsigner
  have := hfresh signer hmem hu
  rw [countableVote_live hlive] at this
  cases this

/-! ## One verdict -/

section Verdict
variable {crypto : Crypto} {s : MutableChainState} {pending : PendingProposal} {hash : JsString} {seq t : Nat}

/-- The reasons that only a vote is refused for. -/
def OfVote (reason : ChainInvalidReason) : Prop :=
  reason = .duplicateApproval ∨ reason = .approvalNotRequired ∨ reason = .proposalExpired

instance : DecidablePred OfVote := fun reason =>
  inferInstanceAs (Decidable (reason = .duplicateApproval ∨ reason = .approvalNotRequired ∨ reason = .proposalExpired))

/-- A rule that gives no reason of a vote. -/
def Clear (verdict : Option ChainInvalidReason) : Prop := ∀ reason, verdict = some reason → ¬ OfVote reason

theorem clear_none : Clear none := fun _ h => by cases h

theorem clear_some {reason : ChainInvalidReason} (h : ¬ OfVote reason) : Clear (some reason) := by
  rintro _ ⟨⟩
  exact h

theorem Clear.orElse {a b : Option ChainInvalidReason} (ha : Clear a) (hb : Clear b) : Clear (a <|> b) := by
  cases a with
  | none => exact hb
  | some reason => exact ha

theorem Clear.ite {c : Prop} [Decidable c] {a b : Option ChainInvalidReason} (ha : Clear a) (hb : Clear b) :
    Clear (if c then a else b) := by
  split_ifs
  · exact ha
  · exact hb

theorem clear_refuse {c : Prop} [Decidable c] {reason : ChainInvalidReason} {next : Option ChainInvalidReason}
    (h : ¬ OfVote reason) (hnext : Clear next) : Clear (if c then some reason else next) := (clear_some h).ite hnext

theorem clear_require {c : Prop} [Decidable c] {reason : ChainInvalidReason} (h : ¬ OfVote reason) :
    Clear (if c then none else some reason) := clear_none.ite (clear_some h)

theorem clear_requireRole (actual minimum : Role) : Clear (requireRole actual minimum) := clear_require (by decide)

theorem clear_targetRoleReason (newRole : Option Role) (actor : ActorContext) (target : ChainMember) :
    Clear (targetRoleReason newRole actor target) :=
  clear_refuse (by decide) (clear_refuse (by decide) clear_none)

theorem clear_scopeEnvironmentsReason (ids : List EnvironmentId) : Clear (scopeEnvironmentsReason ids s) :=
  clear_refuse (by decide) (clear_refuse (by decide) clear_none)

theorem clear_memberScopeReason (scope : ScopePayloadFields) (role : Role) (actor : ActorContext)
    (changed : EnvironmentSet) : Clear (memberScopeReason scope role actor changed s) :=
  (clear_scopeEnvironmentsReason _).orElse
    (Clear.orElse (clear_refuse (by decide) clear_none) (clear_require (by decide)))

theorem resolveTargetedOp_clear {operation : ProposableOperation} {u : UserId} {newRole : Option Role}
    {actor : ActorContext} {reason : ChainInvalidReason}
    (h : resolveTargetedOp operation u newRole actor s = .error reason) : ¬ OfVote reason := by
  unfold resolveTargetedOp at h
  split at h
  · cases h
    decide
  · split at h
    · rename_i hrole
      cases h
      exact clear_targetRoleReason _ _ _ _ hrole
    · split_ifs at h
      cases h
      decide

theorem clear_consensusReason (operation : ProposableOperation) (actor : ActorContext) :
    Clear (consensusReason crypto operation actor s) := by
  cases operation with
  | genesis p => exact clear_none
  | addMember p =>
    exact clear_refuse (by decide) (clear_refuse (by decide) (clear_memberScopeReason _ _ _ _))
  | changeRole p =>
    unfold consensusReason changeRoleReason
    dsimp only
    split
    · rename_i hresolve
      exact clear_some (resolveTargetedOp_clear hresolve)
    · exact (clear_memberScopeReason _ _ _ _).orElse (clear_require (by decide))
  | removeMember p =>
    unfold consensusReason removeMemberReason
    dsimp only
    split
    · rename_i hresolve
      exact clear_some (resolveTargetedOp_clear hresolve)
    · exact clear_refuse (by decide) (clear_require (by decide))
  | createEnvironment p => exact clear_refuse (by decide) (clear_require (by decide))
  | deleteEnvironment p =>
    have hlive : Clear (liveEnvironmentReason s p.environmentId) :=
      clear_refuse (by decide) (clear_refuse (by decide) clear_none)
    exact hlive.orElse (clear_require (by decide))
  | rotateEpoch p =>
    unfold consensusReason rotateEpochReason
    dsimp only
    split
    · exact clear_some (by decide)
    · exact clear_refuse (by decide) (clear_refuse (by decide) (clear_require (by decide)))
  | checkpoint p =>
    have hstage : ∀ (rejected : CheckpointEnvironmentEntry → Bool) (reason : ChainInvalidReason), ¬ OfVote reason →
        Clear (if p.environments.any rejected then some reason else none) := fun _ _ h => clear_refuse h clear_none
    exact (hstage _ .unknownEnvironment (by decide)).orElse
      ((hstage _ .environmentDeleted (by decide)).orElse
        ((hstage _ .environmentOutOfScope (by decide)).orElse
          ((hstage _ .checkpointEpochMismatch (by decide)).orElse (hstage _ .checkpointRegression (by decide)))))
  | grantServer p =>
    exact clear_refuse (by decide) (clear_refuse (by decide) (clear_refuse (by decide)
      (clear_refuse (by decide) clear_none)))
  | revokeServer p => exact clear_require (by decide)
  | setApprovalPolicy p => exact clear_require (by decide)
  | addDevice p =>
    exact clear_refuse (by decide) ((clear_scopeEnvironmentsReason _).orElse (clear_require (by decide)))
  | revokeDevice p =>
    unfold consensusReason revokeDeviceReason
    dsimp only
    split
    · exact clear_some (by decide)
    · rename_i target htarget
      have hrole := (clear_requireRole actor.permission.role .admin).orElse (clear_targetRoleReason none actor target)
      exact clear_refuse (by decide) ((clear_none.ite hrole).orElse
        (clear_refuse (by decide) (clear_refuse (by decide) clear_none)))

/-- The approve of a proposal by a device, valid in its framing, its shape and, where the device is registered, its
signature. -/
structure ApproveAt (crypto : Crypto) (st : ChainState) (hash : JsString) (userId : UserId) (fp : KeyFingerprintHex)
    (timestampMs : Nat) (j : Json) (entry : ChainEntry) : Prop where
  record : j.isRecord = true
  framing : checkFraming j (st.headSeq + 1) st.headHashHex = none
  shape : checkPayloadShape j = some entry
  operation : entry.operation = .approve hash
  actor : entry.actor = { userId := userId, keyFingerprintHex := fp }
  timestamp : entry.timestampMs = timestampMs
  signature : ∀ m d, deviceOf st.members userId fp = some (m, d) →
    verifyEntrySignature crypto entry d.sigPubHex = true

variable {entries : List Json} {loop : LoopState} {userId : UserId} {fp : KeyFingerprintHex} {j : Json}
  {entry : ChainEntry} {m : ChainMember} {d : ChainDevice}

/-- The sealed state that the client reads. -/
def headOf (entries : List Json) (loop : LoopState) : ChainState :=
  sealChainState loop.state entries.length loop.prevHash

theorem resolveActor_approve (hop : entry.operation = .approve hash) : resolveActorSigPub crypto entry s =
    match s.members.get? entry.actor.userId with
    | none => .error .actorNotMember
    | some record =>
      match record.devices.get? entry.actor.keyFingerprintHex with
      | none => .error .actorKeyMismatch
      | some device => .ok device.sigPubHex := by
  cases entry
  cases hop
  rfl

theorem check_approve (hrun : Runs crypto none entries loop)
    (hat : ApproveAt crypto (headOf entries loop) hash userId fp t j entry) :
    checkEntryBeforeApply crypto j (loop.seq + 1) loop.prevHash loop.state =
      match loop.state.members.get? userId with
      | none => .error .actorNotMember
      | some m =>
        match m.devices.get? fp with
        | none => .error .actorKeyMismatch
        | some _ => .ok entry := by
  have hseq : (headOf entries loop).headSeq = loop.seq := (runs_seq hrun).symm
  have hframing := hat.framing
  rw [hseq] at hframing
  unfold checkEntryBeforeApply
  rw [hat.record, Bool.not_true, if_neg Bool.false_ne_true,
    show checkFraming j (loop.seq + 1) loop.prevHash = none from hframing, hat.shape]
  dsimp only
  rw [resolveActor_approve hat.operation, hat.actor]
  cases hm : loop.state.members.get? userId with
  | none => rfl
  | some m =>
    cases hd : m.devices.get? fp with
    | none => simp only [hd]
    | some d =>
      have hverify := hat.signature m d (deviceOf_eq_some.mpr ⟨hm, hd⟩)
      simp only [hd, hverify, if_true]

/-- What the loop makes of the evaluation of an entry. -/
def Turned (crypto : Crypto) (loop : LoopState) (j : Json) :
    Except ChainInvalidReason (MutableChainState × Option AppliedOperation) → Prop
  | .error reason => verifyEntry crypto loop j = .error (.chainInvalid (loop.seq + 1) reason)
  | .ok (state, _) => ∃ loop', verifyEntry crypto loop j = .ok loop' ∧ loop'.state = state

theorem turned_approve (hrun : Runs crypto none entries loop)
    (hat : ApproveAt crypto (headOf entries loop) hash userId fp t j entry)
    (hactor : deviceOf loop.state.members userId fp = some (m, d)) :
    Turned crypto loop j (evaluateApprove crypto (loop.seq + 1) t hash (actorContextOf m d) loop.state) := by
  obtain ⟨hm, hd⟩ := deviceOf_eq_some.mp hactor
  have hcheck := check_approve hrun hat
  simp only [hm, hd] at hcheck
  have hseq : entry.seq = loop.seq + 1 := by
    rw [(framed_of_checks hat.framing hat.shape).seq_eq, runs_seq hrun]
    rfl
  have hthrown := verifyEntry_ne_thrown crypto loop j
  cases hhash : computeChainEntryHash crypto entry with
  | none => exact absurd (by simp only [verifyEntry, hcheck, hhash]) hthrown
  | some entryHash =>
    have heval : evaluateEntry crypto entry entryHash loop.state =
        evaluateApprove crypto (loop.seq + 1) t hash (actorContextOf m d) loop.state := by
      unfold evaluateEntry
      simp only [hat.operation, hat.actor, hm, hd, hseq, hat.timestamp]
    rw [← heval]
    cases hverdict : evaluateEntry crypto entry entryHash loop.state with
    | error reason => simp only [Turned, verifyEntry, hcheck, hhash, hverdict]
    | ok result =>
      have hturn : ∃ history, verifyEntry crypto loop j =
          .ok { state := result.1, history := history, prevHash := entryHash, seq := loop.seq + 1 } := by
        simp only [verifyEntry, hcheck, hhash, hverdict]
        exact ⟨_, rfl⟩
      obtain ⟨history, hturn⟩ := hturn
      exact ⟨_, hturn, rfl⟩

theorem evaluateApprove_eq (hpending : s.pendingProposals.get? hash = some pending) (actor : ActorContext) :
    evaluateApprove crypto seq t hash actor s =
      if actor.permission.role ≠ .owner then .error .insufficientRole
      else match approveVoteReason t actor pending s with
        | some reason => .error reason
        | none =>
          if s.approvalPolicy.all fun policy =>
              countOwnerVotes s (approvalSignersOf pending ++ [voteOf actor]) < policy.requiredApprovals then
            .ok (withPending s (s.pendingProposals.set hash (withVote pending (voteOf actor))), none)
          else completeProposal crypto pending s seq := by
  unfold evaluateApprove
  rw [hpending]
  rfl

theorem any_voted (actor : ActorContext) (hactor : actor.userId = m.userId) :
    ((approvalSignersOf pending).any fun signer =>
      signer.userId = actor.userId && (voteDevice s signer).isSome) = hasVoted s.members pending m := by
  simp only [hasVoted, voteDevice_isSome, hactor]

theorem length_voters (pending : PendingProposal) (st : ChainState) (nowMs : Nat) :
    (proposalViewOf st pending nowMs).voters.length =
      (ownerVotersOf st.members (approvalSignersOf pending)).size := by
  rw [← OrderedMap.length_keys]
  exact (List.perm_insertionSort _ _).length_eq

theorem needed_eq_zero (pending : PendingProposal) {st : ChainState} {policy : ApprovalPolicy}
    (h : st.approvalPolicy = some policy) (nowMs : Nat) : (proposalViewOf st pending nowMs).needed = some 0 ↔
      ¬ (ownerVotersOf st.members (approvalSignersOf pending)).size + 1 < policy.requiredApprovals := by
  have hlength := length_voters pending st nowMs
  have hneeded : (proposalViewOf st pending nowMs).needed =
      some (max 0 ((policy.requiredApprovals : Int) - (proposalViewOf st pending nowMs).voters.length - 1)) := by
    simp only [proposalViewOf, h, Option.map_some]
  rw [hneeded, hlength, Option.some.injEq]
  omega

theorem evaluate_foretold (formatUtcMinutes : Nat → JsString) (hkeyed : WellKeyed crypto s) (st : ChainState)
    (hmembers : st.members = s.members) (hpolicy : st.approvalPolicy = s.approvalPolicy)
    (hpending : s.pendingProposals.get? hash = some pending)
    (hactor : deviceOf s.members userId fp = some (m, d)) :
    evaluateApprove crypto seq t hash (actorContextOf m d) s =
      match voteEligibility formatUtcMinutes st userId fp (proposalViewOf st pending t) with
      | .refused reason _ => .error reason.asInvalid
      | .ok false =>
        .ok (withPending s (s.pendingProposals.set hash
          (withVote pending { userId := userId, keyFingerprintHex := fp })), none)
      | .ok true => completeProposal crypto pending s seq := by
  obtain ⟨hm, hd⟩ := deviceOf_eq_some.mp hactor
  have hvote : voteOf (actorContextOf m d) = { userId := userId, keyFingerprintHex := fp } := by
    rw [voteOf, actorContextOf, hkeyed.member userId m hm, (hkeyed.device userId m fp d hm hd).1]
  have hrole : (actorContextOf m d).permission.role = (effectivePermissionOf m d.toDeviceCap).role := rfl
  rw [evaluateApprove_eq hpending, hrole, hvote]
  unfold voteEligibility approveVoteReason
  simp only [hmembers, hm, hd, any_voted (actorContextOf m d) rfl]
  by_cases howner : (effectivePermissionOf m d.toDeviceCap).role = .owner
  · simp only [howner, ne_eq, not_true_eq_false, if_false]
    cases hvoted : hasVoted s.members pending m with
    | true => simp [proposalViewOf, hmembers, hvoted, VoteRefusal.asInvalid]
    | false =>
      have hfresh : ∀ signer ∈ approvalSignersOf pending, signer.userId = userId →
          voteIsLive s.members signer = false := by
        intro signer hsigner hu
        have hnone := List.any_eq_false.mp hvoted signer hsigner
        simpa [hu, hkeyed.member userId m hm] using hnone
      have hcount := countOwnerVotes_snoc (s := s) (approvalSignersOf pending)
        { userId := userId, keyFingerprintHex := fp } (by simp [countableVote, hactor, howner]) hfresh
      cases htarget : isApprovalTarget pending.inner s.approvalPolicy with
      | false => simp [proposalViewOf, hmembers, hvoted, hpolicy, htarget, VoteRefusal.asInvalid]
      | true =>
        by_cases hexpired : t > pending.expiresAtMs
        · simp [proposalViewOf, hmembers, hvoted, hpolicy, htarget, hexpired, VoteRefusal.asInvalid]
        · cases hsome : s.approvalPolicy with
          | none => simp [isApprovalTarget, hsome] at htarget
          | some policy =>
            have hneeded := needed_eq_zero pending (hpolicy.trans hsome) t
            rw [hmembers] at hneeded
            have hall : (some policy).all (fun policy => countOwnerVotes s (approvalSignersOf pending ++
                [{ userId := userId, keyFingerprintHex := fp }]) < policy.requiredApprovals) =
                !decide ((proposalViewOf st pending t).needed = some 0) := by
              rw [Option.all_some, hcount, decide_eq_decide.mpr hneeded, decide_not, Bool.not_not]
            have htake : (proposalViewOf st pending t).target = true ∧ (proposalViewOf st pending t).expired = false ∧
                (proposalViewOf st pending t).proposal = pending := by
              simp [proposalViewOf, hpolicy, htarget, hexpired]
            obtain ⟨hview, hclock, hproposal⟩ := htake
            simp only [hview, hclock, hproposal, hvoted, hexpired, hall, Bool.not_true, Bool.false_eq_true, if_false]
            by_cases hzero : (proposalViewOf st pending t).needed = some 0
            · simp [hzero]
            · simp [hzero]
  · simp [howner, VoteRefusal.asInvalid]

/-- The rules refuse the inner operation for its proposer. -/
def InnerRefuses (crypto : Crypto) (s : MutableChainState) (pending : PendingProposal)
    (reason : ChainInvalidReason) : Prop :=
  ∃ proposer device, deviceOf s.members pending.proposerUserId pending.proposerKeyFingerprintHex =
      some (proposer, device) ∧
    roleReason pending.inner (actorContextOf proposer device) = none ∧
    consensusReason crypto pending.inner (actorContextOf proposer device) s = some reason

theorem InnerRefuses.not_ofVote {reason : ChainInvalidReason} (h : InnerRefuses crypto s pending reason) :
    ¬ OfVote reason := by
  obtain ⟨proposer, device, -, -, hrules⟩ := h
  exact clear_consensusReason _ _ _ hrules

theorem completeProposal_cases (crypto : Crypto) (s : MutableChainState) (pending : PendingProposal) (seq : Nat) :
    (∃ reason, completeProposal crypto pending s seq = .error reason ∧
      (reason = .proposalVoid ∨ InnerRefuses crypto s pending reason)) ∨
    ∃ result, completeProposal crypto pending s seq = .ok result := by
  cases hdone : completeProposal crypto pending s seq with
  | ok result => exact Or.inr ⟨result, rfl⟩
  | error reason =>
    refine Or.inl ⟨reason, rfl, ?_⟩
    unfold completeProposal at hdone
    split at hdone
    · cases hdone
      exact Or.inl rfl
    · rename_i proposer device hdevice
      dsimp only at hdone
      split at hdone
      · cases hdone
        exact Or.inl rfl
      · rename_i hrole
        split at hdone
        · rename_i r hrules
          cases hdone
          exact Or.inr ⟨proposer, device, hdevice, hrole, hrules⟩
        · cases hdone

theorem InnerRefuses.error {reason : ChainInvalidReason} (h : InnerRefuses crypto s pending reason) (seq : Nat) :
    completeProposal crypto pending s seq = .error reason := by
  obtain ⟨proposer, device, hdevice, hrole, hrules⟩ := h
  simp only [completeProposal, hdevice, hrole, hrules]

/-! ## The extended chain -/

/-- The state after an approve that completes the proposal. -/
def completedState (crypto : Crypto) (s : MutableChainState) (pending : PendingProposal) (seq : Nat) :
    MutableChainState :=
  let applied := applyOperation crypto pending.inner s seq pending.proposerUserId
  withPending applied (applied.pendingProposals.delete pending.proposalHashHex)

/-- The client's answer against what the verifier does with the extended chain. -/
structure Foretold (crypto : Crypto) (entries : List Json) (s : MutableChainState) (hash : JsString)
    (pending : PendingProposal) (vote : ApprovalVote) (answer : VoteEligibility) (j : Json) : Prop where
  /-- A vote is refused as foretold. -/
  refused : ∀ reason ∈ [VoteRefusal.duplicateApproval, .approvalNotRequired, .proposalExpired],
    verifyChain crypto (entries ++ [j]) = .error (.chainInvalid (entries.length + 1) reason.asInvalid) ↔
      answer.reason? = some reason
  /-- So is a device that is no owner's; an applied operation may be refused for its proposer's role. -/
  role : verifyChain crypto (entries ++ [j]) = .error (.chainInvalid (entries.length + 1) .insufficientRole) ↔
    answer.reason? = some .insufficientRole ∨
      answer = .ok true ∧ InnerRefuses crypto s pending .insufficientRole
  /-- Short of the quorum the vote is recorded and nothing is applied. -/
  recorded : answer = .ok false → (∃ st', verifyChain crypto (entries ++ [j]) = .ok st') ∧
    stateAfter crypto (entries ++ [j]) = some (withPending s (s.pendingProposals.set hash (withVote pending vote)))
  /-- At the quorum the inner operation is applied, or the proposal is void or the operation refused. -/
  completed : answer = .ok true →
    ((∃ st', verifyChain crypto (entries ++ [j]) = .ok st') ∧
      stateAfter crypto (entries ++ [j]) = some (completedState crypto s pending (entries.length + 1))) ∨
    ∃ reason, verifyChain crypto (entries ++ [j]) = .error (.chainInvalid (entries.length + 1) reason) ∧
      (reason = .proposalVoid ∨ InnerRefuses crypto s pending reason)

theorem verifyChain_snoc (hrun : Runs crypto none entries loop) (j : Json) :
    verifyChain crypto (entries ++ [j]) = (verifyEntry crypto loop j).map fun loop' =>
      sealChainState loop'.state (entries.length + 1) loop'.prevHash := by
  have hfold : (entries ++ [j]).foldlM (verifyEntry crypto) (.initial none) = verifyEntry crypto loop j := by
    rw [List.foldlM_append, show entries.foldlM (verifyEntry crypto) (.initial none) = .ok loop from hrun]
    show (verifyEntry crypto loop j >>= fun loop' => pure loop') = _
    cases verifyEntry crypto loop j <;> rfl
  unfold verifyChain verifyChainCore
  rw [hfold, List.length_append, List.length_singleton, if_neg (by simp)]
  cases verifyEntry crypto loop j <;> rfl

theorem stateAfter_snoc {loop' : LoopState} (hrun : Runs crypto none entries loop)
    (h : verifyEntry crypto loop j = .ok loop') : stateAfter crypto (entries ++ [j]) = some loop'.state :=
  stateAfter_eq_some.mpr ⟨loop', (reaches_snoc _ _ _ _).mpr ⟨loop, hrun, h⟩, rfl⟩

theorem turned_error {reason : ChainInvalidReason} (hrun : Runs crypto none entries loop)
    (h : Turned crypto loop j (.error reason)) :
    verifyChain crypto (entries ++ [j]) = .error (.chainInvalid (entries.length + 1) reason) := by
  rw [verifyChain_snoc hrun, show verifyEntry crypto loop j = _ from h, runs_seq hrun]
  rfl

theorem turned_ok {result : MutableChainState × Option AppliedOperation} (hrun : Runs crypto none entries loop)
    (h : Turned crypto loop j (.ok result)) :
    (∃ st', verifyChain crypto (entries ++ [j]) = .ok st') ∧
      stateAfter crypto (entries ++ [j]) = some result.1 := by
  obtain ⟨loop', hturn, hstate⟩ := h
  refine ⟨⟨sealChainState loop'.state (entries.length + 1) loop'.prevHash, ?_⟩, ?_⟩
  · rw [verifyChain_snoc hrun, hturn]
    rfl
  · rw [stateAfter_snoc hrun hturn, hstate]

theorem verifyChain_stranger (formatUtcMinutes : Nat → JsString) (pending : PendingProposal) (hrun : Runs crypto none entries loop)
    (hat : ApproveAt crypto (headOf entries loop) hash userId fp t j entry)
    (hnone : deviceOf loop.state.members userId fp = none) :
    ∃ reason message, (reason = .notAMember ∨ reason = .deviceNotRegistered) ∧
      voteEligibility formatUtcMinutes (headOf entries loop) userId fp
        (proposalViewOf (headOf entries loop) pending t) = .refused reason message ∧
      verifyChain crypto (entries ++ [j]) = .error (.chainInvalid (entries.length + 1) reason.asInvalid) := by
  have hcheck := check_approve hrun hat
  have hmembers : (headOf entries loop).members = loop.state.members := rfl
  unfold voteEligibility
  rw [hmembers]
  cases hm : loop.state.members.get? userId with
  | none =>
    simp only [hm] at hcheck
    refine ⟨.notAMember, _, Or.inl rfl, rfl, turned_error hrun ?_⟩
    simp only [Turned, verifyEntry, hcheck]
    rfl
  | some m =>
    cases hd : m.devices.get? fp with
    | none =>
      simp only [hm, hd] at hcheck
      refine ⟨.deviceNotRegistered, deviceNotRegisteredText, Or.inr rfl, by simp only [hd], turned_error hrun ?_⟩
      simp only [Turned, verifyEntry, hcheck]
      rfl
    | some d => rw [deviceOf_eq_some.mpr ⟨hm, hd⟩] at hnone; cases hnone

theorem foretold_of_refused {message : JsString} {reason : VoteRefusal} {vote : ApprovalVote}
    (h : verifyChain crypto (entries ++ [j]) = .error (.chainInvalid (entries.length + 1) reason.asInvalid)) :
    Foretold crypto entries s hash pending vote (.refused reason message) j where
  refused r _ := by
    rw [h]
    simp [VoteRefusal.asInvalid_inj, VoteEligibility.reason?]
  role := by
    rw [h]
    simp [VoteEligibility.reason?, ← VoteRefusal.asInvalid_inj, VoteRefusal.asInvalid]
  recorded := nofun
  completed := nofun

theorem foretold_of_error {reason : ChainInvalidReason} {vote : ApprovalVote}
    (h : verifyChain crypto (entries ++ [j]) = .error (.chainInvalid (entries.length + 1) reason))
    (hdone : completeProposal crypto pending s seq = .error reason)
    (hwhy : reason = .proposalVoid ∨ InnerRefuses crypto s pending reason) :
    Foretold crypto entries s hash pending vote (.ok true) j where
  refused r hr := by
    have hvote : ¬ OfVote reason := by
      rcases hwhy with rfl | hinner
      · decide
      · exact hinner.not_ofVote
    rw [h]
    constructor
    · intro heq
      cases heq
      refine absurd ?_ hvote
      simp only [List.mem_cons, List.not_mem_nil, or_false] at hr
      rcases hr with rfl | rfl | rfl <;> decide
    · nofun
  role := by
    rw [h]
    constructor
    · intro heq
      cases heq
      exact Or.inr ⟨rfl, hwhy.resolve_left (by decide)⟩
    · rintro (hnone | ⟨-, hinner⟩)
      · cases hnone
      · rw [hinner.error] at hdone
        cases hdone
        rfl
  recorded := nofun
  completed _ := Or.inr ⟨reason, h, hwhy⟩

theorem foretold_of_closed {result : MutableChainState × Option AppliedOperation} {vote : ApprovalVote}
    (hkeyed : WellKeyed crypto s)
    (h : (∃ st', verifyChain crypto (entries ++ [j]) = .ok st') ∧ stateAfter crypto (entries ++ [j]) = some result.1)
    (hdone : completeProposal crypto pending s (entries.length + 1) = .ok result) :
    Foretold crypto entries s hash pending vote (.ok true) j := by
  obtain ⟨⟨st', hst'⟩, hstate⟩ := h
  refine ⟨fun r _ => by simp [hst', VoteEligibility.reason?], ?_, nofun, fun _ => Or.inl ⟨⟨st', hst'⟩, ?_⟩⟩
  · rw [hst']
    constructor
    · nofun
    · rintro (hnone | ⟨-, hinner⟩)
      · cases hnone
      · rw [hinner.error] at hdone
        cases hdone
  · obtain ⟨proposer, device, auth, hresult, -⟩ := completeProposal_ok hdone
    rw [hstate, hresult, auth.userId_eq hkeyed]
    rfl

theorem foretold (formatUtcMinutes : Nat → JsString) (hrun : Runs crypto none entries loop)
    (hpending : loop.state.pendingProposals.get? hash = some pending)
    (hat : ApproveAt crypto (headOf entries loop) hash userId fp t j entry) :
    Foretold crypto entries loop.state hash pending { userId := userId, keyFingerprintHex := fp }
      (voteEligibility formatUtcMinutes (headOf entries loop) userId fp
        (proposalViewOf (headOf entries loop) pending t)) j := by
  have hkeyed := (runs_sound hrun).keyed
  cases hactor : deviceOf loop.state.members userId fp with
  | none =>
    obtain ⟨reason, message, -, hanswer, hrefused⟩ :=
      verifyChain_stranger formatUtcMinutes pending hrun hat hactor
    rw [hanswer]
    exact foretold_of_refused hrefused
  | some actor =>
    obtain ⟨m, d⟩ := actor
    have hturned := turned_approve hrun hat hactor
    rw [evaluate_foretold formatUtcMinutes hkeyed (headOf entries loop) rfl rfl hpending hactor,
      runs_seq hrun] at hturned
    cases hanswer : voteEligibility formatUtcMinutes (headOf entries loop) userId fp
        (proposalViewOf (headOf entries loop) pending t) with
    | refused reason message =>
      rw [hanswer] at hturned
      exact foretold_of_refused (turned_error hrun hturned)
    | ok completes =>
      rw [hanswer] at hturned
      cases completes with
      | false =>
        obtain ⟨⟨st', hst'⟩, hstate⟩ := turned_ok hrun hturned
        exact {
          refused := fun r _ => by simp [hst', VoteEligibility.reason?]
          role := by simp [hst', VoteEligibility.reason?]
          recorded := fun _ => ⟨⟨st', hst'⟩, hstate⟩
          completed := nofun }
      | true =>
        rcases completeProposal_cases crypto loop.state pending (entries.length + 1) with ⟨reason, hdone, hwhy⟩ | ⟨result, hdone⟩
        · have hrefused := turned_error hrun (hdone ▸ hturned)
          exact foretold_of_error hrefused hdone hwhy
        · have hclosed := turned_ok hrun (hdone ▸ hturned)
          exact foretold_of_closed hkeyed hclosed hdone

/-! ## Who can still approve -/

theorem ownerOnAnyDevice_iff (m : ChainMember) : ownerOnAnyDevice m = true ↔
    ∃ fp d, m.devices.get? fp = some d ∧ (effectivePermissionOf m d.toDeviceCap).role = .owner := by
  simp only [ownerOnAnyDevice, List.any_eq_true, decide_eq_true_eq, OrderedMap.mem_values]
  constructor
  · rintro ⟨d, ⟨fp, hd⟩, howner⟩
    exact ⟨fp, d, hd, howner⟩
  · rintro ⟨fp, d, hd, howner⟩
    exact ⟨d, ⟨fp, hd⟩, howner⟩

theorem mem_eligibleApprovers (pending : PendingProposal) (st : ChainState) (hkeyed : WellKeyed crypto s)
    (hmembers : st.members = s.members)
    (nowMs : Nat) (u : UserId) : u ∈ (proposalViewOf st pending nowMs).eligibleApprovers ↔
      ∃ m, s.members.get? u = some m ∧ ownerOnAnyDevice m = true ∧ hasVoted s.members pending m = false := by
  simp only [proposalViewOf, List.mem_insertionSort, List.mem_map, List.mem_filter, OrderedMap.mem_values, hmembers,
    Bool.and_eq_true, Bool.not_eq_true']
  constructor
  · rintro ⟨m, ⟨⟨k, hm⟩, howner, hvoted⟩, rfl⟩
    rw [hkeyed.member k m hm]
    exact ⟨m, hm, howner, hvoted⟩
  · rintro ⟨m, hm, howner, hvoted⟩
    exact ⟨m, ⟨⟨u, hm⟩, howner, hvoted⟩, hkeyed.member u m hm⟩

/-- The device and the votes decide these two answers, whatever the clock says. -/
theorem reason_of_actor (formatUtcMinutes : Nat → JsString) (pending : PendingProposal) {st : ChainState}
    (hactor : deviceOf st.members userId fp = some (m, d)) (nowMs : Nat) :
    ((voteEligibility formatUtcMinutes st userId fp (proposalViewOf st pending nowMs)).reason? =
        some .insufficientRole ↔ (effectivePermissionOf m d.toDeviceCap).role ≠ .owner) ∧
      ((voteEligibility formatUtcMinutes st userId fp (proposalViewOf st pending nowMs)).reason? =
        some .duplicateApproval ↔ (effectivePermissionOf m d.toDeviceCap).role = .owner ∧
          hasVoted st.members pending m = true) := by
  obtain ⟨hm, hd⟩ := deviceOf_eq_some.mp hactor
  have hproposal : (proposalViewOf st pending nowMs).proposal = pending := rfl
  unfold voteEligibility
  simp only [hm, hd, hproposal]
  split_ifs with howner hvoted htarget hexpired <;> simp_all [VoteEligibility.reason?]

/-- What is foretold of a pending proposal, for every device and clock, and of who can approve it. -/
structure VotesForetold (crypto : Crypto) (entries : List Json) (st : ChainState) (s : MutableChainState)
    (formatUtcMinutes : Nat → JsString) (hash : JsString) (pending : PendingProposal) : Prop where
  vote : ∀ userId fp t j entry, ApproveAt crypto st hash userId fp t j entry →
    Foretold crypto entries s hash pending { userId := userId, keyFingerprintHex := fp }
      (voteEligibility formatUtcMinutes st userId fp (proposalViewOf st pending t)) j
  eligible : ∀ nowMs, ∀ userId ∈ (proposalViewOf st pending nowMs).eligibleApprovers,
    ∃ fp m d, deviceOf st.members userId fp = some (m, d) ∧
      ∀ t j entry, ApproveAt crypto st hash userId fp t j entry →
        verifyChain crypto (entries ++ [j]) ≠ .error (.chainInvalid (entries.length + 1) .duplicateApproval) ∧
          (verifyChain crypto (entries ++ [j]) = .error (.chainInvalid (entries.length + 1) .insufficientRole) →
            InnerRefuses crypto s pending .insufficientRole)
  others : ∀ nowMs userId, userId ∉ (proposalViewOf st pending nowMs).eligibleApprovers →
    ∀ fp m d, deviceOf st.members userId fp = some (m, d) →
      ∀ t j entry, ApproveAt crypto st hash userId fp t j entry →
        verifyChain crypto (entries ++ [j]) = .error (.chainInvalid (entries.length + 1) .duplicateApproval) ∨
          verifyChain crypto (entries ++ [j]) = .error (.chainInvalid (entries.length + 1) .insufficientRole)

theorem votesForetold_of_runs (formatUtcMinutes : Nat → JsString) (hrun : Runs crypto none entries loop)
    (hpending : loop.state.pendingProposals.get? hash = some pending) :
    VotesForetold crypto entries (headOf entries loop) loop.state formatUtcMinutes hash pending := by
  have hkeyed := (runs_sound hrun).keyed
  have hvote := fun userId fp t j entry (hat : ApproveAt crypto (headOf entries loop) hash userId fp t j entry) =>
    foretold formatUtcMinutes hrun hpending hat
  have hmem := mem_eligibleApprovers pending (headOf entries loop) hkeyed rfl
  refine ⟨hvote, ?_, ?_⟩
  · intro nowMs u hu
    obtain ⟨m, hm, howner, hvoted⟩ := (hmem nowMs u).mp hu
    obtain ⟨fp, d, hd, howner⟩ := (ownerOnAnyDevice_iff m).mp howner
    have hactor : deviceOf (headOf entries loop).members u fp = some (m, d) := deviceOf_eq_some.mpr ⟨hm, hd⟩
    refine ⟨fp, m, d, hactor, fun t j entry hat => ?_⟩
    have hforetold := hvote u fp t j entry hat
    obtain ⟨hrole, hduplicate⟩ := reason_of_actor formatUtcMinutes pending hactor t
    constructor
    · intro heq
      have hboth := hduplicate.mp ((hforetold.refused .duplicateApproval (by simp)).mp heq)
      rw [show (headOf entries loop).members = loop.state.members from rfl, hvoted] at hboth
      cases hboth.2
    · intro heq
      rcases hforetold.role.mp heq with hreason | ⟨-, hinner⟩
      · exact absurd howner (hrole.mp hreason)
      · exact hinner
  · intro nowMs u hu fp m d hactor t j entry hat
    have hforetold := hvote u fp t j entry hat
    obtain ⟨hrole, hduplicate⟩ := reason_of_actor formatUtcMinutes pending hactor t
    obtain ⟨hm, hd⟩ := deviceOf_eq_some.mp hactor
    by_cases howner : (effectivePermissionOf m d.toDeviceCap).role = .owner
    · refine Or.inl ((hforetold.refused .duplicateApproval (by simp)).mpr (hduplicate.mpr ⟨howner, ?_⟩))
      by_contra hvoted
      exact hu ((hmem nowMs u).mpr ⟨m, hm, (ownerOnAnyDevice_iff m).mpr ⟨fp, d, hd, howner⟩, (Bool.not_eq_true _).mp hvoted⟩)
    · exact Or.inr (hforetold.role.mpr (Or.inl (hrole.mpr howner)))

end Verdict

/-- The client foretells votes as the verifier decides them. -/
theorem votes_foretold (crypto : Crypto) (entries : List Json) (st : ChainState)
    (h : verifyChain crypto entries = .ok st) (formatUtcMinutes : Nat → JsString) (hash : JsString)
    (pending : PendingProposal) (hpending : st.pendingProposals.get? hash = some pending) :
    ∃ s, stateAfter crypto entries = some s ∧
      VotesForetold crypto entries st s formatUtcMinutes hash pending := by
  obtain ⟨loop, hrun, rfl⟩ := verifyChain_runs h
  exact ⟨loop.state, stateAfter_of_runs hrun, votesForetold_of_runs formatUtcMinutes hrun hpending⟩

/-! ## A target promoted meanwhile

An admin proposes to remove a member, who becomes an admin before the quorum is reached. The last owner is told that
the vote completes; the rules of the removal refuse it, for the proposer's role. -/

def partnerKey : ExampleKey where
  enc := hex 32 0xd25f71010f0ea785c09814851977223bb85831b2420ed036df0b2e44d301ed19
  sig := hex 32 0x8bde56b3d37511ee6532f306d54f5b41c17248729f3e1896ca5aca3587fe8b20
  fingerprint := hex 16 0x1e458fadd5ce2d602f1a20b4b9480616

def clerkKey : ExampleKey where
  enc := hex 32 0x18b8069b27323823318fe20417f56a48c4d403494b6f11f32e46c05be2bbf46b
  sig := hex 32 0xe432c970d2b20b21fd0b94e6c2379b70c3cf2b34715a1e991442afca14d9937e
  fingerprint := hex 16 0x62da535a4f51c6db724ead80c490f7a2

def staffKey : ExampleKey where
  enc := hex 32 0x347e3c8b87ad79c223e24705038b0efb6af4d816789be4ff8ca4e8d5e5f6752e
  sig := hex 32 0x5146d9a3a57195f5409c9d6be08606cca209f349506dfac24a72166e7fcbda0e
  fingerprint := hex 16 0x8471b184f3357bc20661744d8b2bede5

def removalHash : JsString := hex 32 0xece5ecf39b32f625ddd85b7b809e03f46ba0d8734daae850077acfa6e95e29fb

def promotedEntries : List ChainEntry :=
  [exampleEntry 1 genesisPrevHash
    (.direct (.genesis { encPubHex := notaryKey.enc, sigPubHex := notaryKey.sig }))
    "alice" notaryKey
    0x0ef3ea47921873938f0ebfec0c824b0c543707ec5629882f8058953cef6bd72a183fb51aa2aa2f1e76dd267375ac93272ab997aa2469fe8959eec98390b84603,
  exampleEntry 2 (hex 32 0xa83dcd548d75f64510685f5239ee807d15be5820bbdae87a5e124e34f42dfa31)
    (.direct (.addMember {
      targetUserId := lit "bob", encPubHex := partnerKey.enc, sigPubHex := partnerKey.sig
      role := .owner, scopeKind := .all, scopeEnvironmentIds := [] }))
    "alice" notaryKey
    0x8befa7fadb57dd3fb55e82d894fe8bb47f6435e7f80f9fac652be675ed56109b510fc4fee7d9c9d83f68cd27a324c613f020141574364b258906a7aec3644c09,
  exampleEntry 3 (hex 32 0x16b5ca8a0576f310759927434dc53e39994265f118a6d1bbae33f225b91810c9)
    (.direct (.addMember {
      targetUserId := lit "dave", encPubHex := clerkKey.enc, sigPubHex := clerkKey.sig
      role := .admin, scopeKind := .all, scopeEnvironmentIds := [] }))
    "alice" notaryKey
    0x3d4b964ac9c00fce90ed1378f994e3b7a79f643bca12897ba29dbcda82dd20e7b7ca25c3e081d61563d248586b3bca67fafe81907a649733ba917420dd589a00,
  exampleEntry 4 (hex 32 0xfa99a8fb0cfe97f21b40e1723e39a655d0daecfa63e548ebf7dc5c6a3c336f81)
    (.direct (.addMember {
      targetUserId := lit "erin", encPubHex := staffKey.enc, sigPubHex := staffKey.sig
      role := .member, scopeKind := .all, scopeEnvironmentIds := [] }))
    "alice" notaryKey
    0x803e164f3e3ae10c7265ad5a706e7a21fd498efb5a2e7a6014004066b07f51c1332e5217eb9dd26d71f7319a5725aa20fb28ef37e30c099e193bb111227dc501,
  exampleEntry 5 (hex 32 0x7fef4a8f8bd63740da34f6c559723bb323da0fc7c6110e5776c5c3fc32239b17)
    (.direct (.setApprovalPolicy { ops := [.removeMember], requiredApprovals := 2 }))
    "alice" notaryKey
    0xe4adc4ea127fa6079a13bc3ffa62f5567b66b9d68a631a32b2538db9a891931f9458e2f3b3801db41e9aa1e1b2ec89bb8069201a8b524a08b069e85383f96c0a,
  exampleEntry 6 (hex 32 0xadd107ceed90ac23a48bc2f4e7b63ebd3dae9a51d9730f71cf24758295ae0f67)
    (.propose { inner := .removeMember { targetUserId := lit "erin" }, expiresAtMs := 100000 })
    "dave" clerkKey
    0x502f03e6cae0269553c3525ff8b5ebfe4c3c2761e2cea9cc36ba2ff7666b23ceb87fc4aff60aaf8ccb782a1c9c38be99b1a10b85538229e91078e3d962c16a03,
  exampleEntry 7 removalHash
    (.direct (.changeRole {
      targetUserId := lit "erin", newRole := .admin, scopeKind := .all, scopeEnvironmentIds := [] }))
    "alice" notaryKey
    0x3d0528e2feda4f4b15c160dd444be36ddcd211f2216ea6fd15d48602f29448db5f60d525763d862b3ad70e55f3d5dd4f96779faf2177910eb5b0dfb67e7f690a,
  exampleEntry 8 (hex 32 0x8d273ca14c8d8009bf7e309cb60b5c67e3ecfc53bab6e784901ca5b7558507ba)
    (.approve removalHash)
    "alice" notaryKey
    0xfadd225b7923035078b35b19ad425ba51300a60a8e682829e4bccad44a4f9a8ed4a29702c6fc41d46046dc549e96aad331f27a6dab14bf1aa7897f64d9c59400]

def lastApprove : ChainEntry :=
  exampleEntry 9 (hex 32 0x34343ffdb091f39ad627b8e1921a58395763e2075ef38df5baae50a404adeaf8)
    (.approve removalHash)
    "bob" partnerKey
    0xa83d077457cc7eb92e49780c460c24e34a452dc728e607748240a6452d1800fd398ed238b37c1dd20c8d7b12a084a6a6894421666fb0a060ac78d011129d3b0c

def promotedCrypto : Crypto := signedBy [notaryKey, partnerKey, clerkKey] (promotedEntries ++ [lastApprove])

def promotedChain : List Json := promotedEntries.map entryJson

/-- The last approve is valid, foretold to complete, and refused. -/
def RefusedUnforetold (crypto : Crypto) (loop : LoopState) : Bool :=
  match loop.state.pendingProposals.get? removalHash with
  | none => false
  | some pending =>
    let st := headOf promotedChain loop
    checkFraming (entryJson lastApprove) (st.headSeq + 1) st.headHashHex = none &&
      ((deviceOf st.members (lit "bob") partnerKey.fingerprint).all fun actor =>
        verifyEntrySignature crypto lastApprove actor.2.sigPubHex) &&
      voteEligibility (fun _ => []) st (lit "bob") partnerKey.fingerprint (proposalViewOf st pending 9000) = .ok true &&
      (match verifyEntry crypto loop (entryJson lastApprove) with
        | .error failure => failure = .chainInvalid 9 .insufficientRole
        | .ok _ => false)

set_option maxRecDepth 100000 in
theorem promoted_evaluates :
    (match promotedChain.foldlM (verifyEntry promotedCrypto) (.initial none) with
      | .ok loop => RefusedUnforetold promotedCrypto loop
      | .error _ => false) = true := by
  rw [promotedCrypto, signedBy_eq]
  decide +kernel

set_option maxRecDepth 100000 in
theorem lastApprove_shape : checkPayloadShape (entryJson lastApprove) = some lastApprove := by decide +kernel

theorem promoted_runs : ∃ loop pending, Runs promotedCrypto none promotedChain loop ∧
    loop.state.pendingProposals.get? removalHash = some pending ∧
    ApproveAt promotedCrypto (headOf promotedChain loop) removalHash (lit "bob") partnerKey.fingerprint 9000
      (entryJson lastApprove) lastApprove ∧
    voteEligibility (fun _ => []) (headOf promotedChain loop) (lit "bob") partnerKey.fingerprint
      (proposalViewOf (headOf promotedChain loop) pending 9000) = .ok true ∧
    verifyEntry promotedCrypto loop (entryJson lastApprove) = .error (.chainInvalid 9 .insufficientRole) := by
  have h := promoted_evaluates
  split at h
  · rename_i loop hrun
    unfold RefusedUnforetold at h
    split at h
    · cases h
    · rename_i pending hpending
      simp only [Bool.and_eq_true, decide_eq_true_eq] at h
      obtain ⟨⟨⟨hframing, hsignature⟩, hanswer⟩, hrefused⟩ := h
      refine ⟨loop, pending, hrun, hpending, ⟨rfl, hframing, lastApprove_shape, rfl, rfl, rfl, ?_⟩, hanswer, ?_⟩
      · intro m d hactor
        rw [hactor, Option.all_some] at hsignature
        dsimp only at hsignature
        exact hsignature
      · generalize verifyEntry promotedCrypto loop (entryJson lastApprove) = outcome at hrefused ⊢
        cases outcome with
        | error failure => exact congrArg Except.error (of_decide_eq_true hrefused)
        | ok loop' => cases hrefused
  · cases h

/-- The verifier gives the role as its reason where the client foretells a completing vote. -/
theorem role_refused_unforetold : ∃ st pending, verifyChain promotedCrypto promotedChain = .ok st ∧
    st.pendingProposals.get? removalHash = some pending ∧
    ApproveAt promotedCrypto st removalHash (lit "bob") partnerKey.fingerprint 9000 (entryJson lastApprove)
      lastApprove ∧
    voteEligibility (fun _ => []) st (lit "bob") partnerKey.fingerprint (proposalViewOf st pending 9000) = .ok true ∧
    verifyChain promotedCrypto (promotedChain ++ [entryJson lastApprove]) =
      .error (.chainInvalid 9 .insufficientRole) := by
  obtain ⟨loop, pending, hrun, hpending, hat, hanswer, hrefused⟩ := promoted_runs
  refine ⟨headOf promotedChain loop, pending,
    verifyChain_ok_iff.mpr ⟨List.cons_ne_nil _ _, loop, hrun, rfl⟩, hpending, hat, hanswer, ?_⟩
  rw [verifyChain_snoc hrun, hrefused, Except.map]

/-- What the theorem says of it, with an approve there to say it about. -/
theorem votes_foretold_promoted : ∃ st pending s, st.pendingProposals.get? removalHash = some pending ∧
    ApproveAt promotedCrypto st removalHash (lit "bob") partnerKey.fingerprint 9000 (entryJson lastApprove)
      lastApprove ∧
    stateAfter promotedCrypto promotedChain = some s ∧
    VotesForetold promotedCrypto promotedChain st s (fun _ => []) removalHash pending := by
  obtain ⟨loop, pending, hrun, hpending, hat, -⟩ := promoted_runs
  obtain ⟨s, hstate, hforetold⟩ := votes_foretold promotedCrypto promotedChain (headOf promotedChain loop)
    (verifyChain_ok_iff.mpr ⟨List.cons_ne_nil _ _, loop, hrun, rfl⟩) (fun _ => []) removalHash
    pending hpending
  exact ⟨headOf promotedChain loop, pending, s, hpending, hat, hstate, hforetold⟩

end Maruhi.Approval
