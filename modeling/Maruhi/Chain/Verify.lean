import Maruhi.Chain.Apply
import Maruhi.Chain.History
import Maruhi.Lib.Run

/-!
# Chain verification: entry evaluation and the loop

A thrown error is a failure of its own here, apart from every reason.
-/

open Text

namespace Maruhi.Chain

structure AppliedOperation where
  operation : ProposableOperation
  actorUserId : UserId
  deriving DecidableEq, Repr

/-! ## The signature -/

def resolveActorSigPub (crypto : Crypto) (entry : ChainEntry) (state : MutableChainState) :
    Except ChainInvalidReason JsString :=
  match entry.operation with
  | .direct (.genesis p) =>
    if userFingerprintHex crypto p.encPubHex p.sigPubHex ≠ entry.actor.keyFingerprintHex then
      .error .actorKeyMismatch
    else .ok p.sigPubHex
  | _ =>
    match state.members.get? entry.actor.userId with
    | none => .error .actorNotMember
    | some record =>
      match record.devices.get? entry.actor.keyFingerprintHex with
      | none => .error .actorKeyMismatch
      | some device => .ok device.sigPubHex

/-- What the encoder throws on is confined here to a refused signature. -/
def verifyEntrySignature (crypto : Crypto) (entry : ChainEntry) (sigPubHex : JsString) : Bool :=
  match decodeHex entry.signatureHex, decodeHex sigPubHex with
  | some signature, some publicKeyBytes =>
    if signature.length ≠ signatureBytes then false
    else match canonicalChainSignedBytes entry with
      | none => false
      | some signedBytes => crypto.ed25519Verify publicKeyBytes signedBytes signature
  | _, _ => false

/-! ## Entry evaluation -/

/-- A direct append: role rules, approval-required, consensus rules, apply. -/
def evaluateDirect (crypto : Crypto) (operation : ProposableOperation) (actor : ActorContext)
    (state : MutableChainState) (seq : Nat) :
    Except ChainInvalidReason (MutableChainState × Option AppliedOperation) :=
  match roleReason operation actor with
  | some reason => .error reason
  | none =>
    if isApprovalTarget operation state.approvalPolicy then .error .approvalRequired
    else match consensusReason crypto operation actor state with
      | some reason => .error reason
      | none =>
        .ok (applyOperation crypto operation state seq actor.userId,
          some { operation, actorUserId := actor.userId })

def evaluatePropose (crypto : Crypto) (seq : Nat) (p : ProposePayload) (entryHashHex : JsString)
    (actor : ActorContext) (state : MutableChainState) : Except ChainInvalidReason MutableChainState :=
  match roleReason p.inner actor with
  | some reason => .error reason
  | none =>
    if !isApprovalTarget p.inner state.approvalPolicy then .error .approvalNotRequired
    else match consensusReason crypto p.inner actor state with
      | some reason => .error reason
      | none =>
        .ok { state with
          pendingProposals := state.pendingProposals.set entryHashHex
            { proposalSeq := seq
              proposalHashHex := entryHashHex
              proposerUserId := actor.userId
              proposerKeyFingerprintHex := actor.device.keyFingerprintHex
              proposerRoleAtProposal := actor.permission.role
              inner := p.inner
              expiresAtMs := p.expiresAtMs
              approvals := [] } }

/-- The checks before a vote counts. A vote of a device that is no longer valid is not live. -/
def approveVoteReason (timestampMs : Nat) (actor : ActorContext) (pending : PendingProposal)
    (state : MutableChainState) : Option ChainInvalidReason :=
  if (approvalSignersOf pending).any fun signer =>
      signer.userId = actor.userId && (voteDevice state signer).isSome then some .duplicateApproval
  else if !isApprovalTarget pending.inner state.approvalPolicy then some .approvalNotRequired
  else if timestampMs > pending.expiresAtMs then some .proposalExpired
  else none

/-- Apply on quorum: the proposer and the inner operation's rules are checked again, now. -/
def completeProposal (crypto : Crypto) (pending : PendingProposal) (state : MutableChainState) (seq : Nat) :
    Except ChainInvalidReason (MutableChainState × Option AppliedOperation) :=
  match deviceOf state.members pending.proposerUserId pending.proposerKeyFingerprintHex with
  | none => .error .proposalVoid
  | some (proposer, device) =>
    let actor := actorContextOf proposer device
    match roleReason pending.inner actor with
    | some _ => .error .proposalVoid
    | none =>
      match consensusReason crypto pending.inner actor state with
      | some reason => .error reason
      | none =>
        let applied := applyOperation crypto pending.inner state seq proposer.userId
        .ok ({ applied with pendingProposals := applied.pendingProposals.delete pending.proposalHashHex },
          some { operation := pending.inner, actorUserId := proposer.userId })

def voteOf (actor : ActorContext) : ApprovalVote where
  userId := actor.userId
  keyFingerprintHex := actor.device.keyFingerprintHex

def evaluateApprove (crypto : Crypto) (seq timestampMs : Nat) (proposalHashHex : JsString)
    (actor : ActorContext) (state : MutableChainState) :
    Except ChainInvalidReason (MutableChainState × Option AppliedOperation) :=
  if actor.permission.role ≠ .owner then .error .insufficientRole
  else match state.pendingProposals.get? proposalHashHex with
    | none => .error .unknownProposal
    | some pending =>
      match approveVoteReason timestampMs actor pending state with
      | some reason => .error reason
      | none =>
        let votes := countOwnerVotes state (approvalSignersOf pending ++ [voteOf actor])
        -- Without a policy no number of votes is enough.
        if state.approvalPolicy.all fun policy => votes < policy.requiredApprovals then
          .ok ({ state with
            pendingProposals := state.pendingProposals.set proposalHashHex
              { pending with approvals := pending.approvals ++ [voteOf actor] } }, none)
        else completeProposal crypto pending state seq

/-- A non-owner may withdraw a proposal of their own only. -/
def evaluateWithdraw (proposalHashHex : JsString) (actor : ActorContext) (state : MutableChainState) :
    Except ChainInvalidReason MutableChainState :=
  let pending? := state.pendingProposals.get? proposalHashHex
  if actor.permission.role ≠ .owner && pending?.map (·.proposerUserId) ≠ some actor.userId then
    .error .insufficientRole
  else match pending? with
    | none => .error .unknownProposal
    | some pending =>
      .ok { state with pendingProposals := state.pendingProposals.delete pending.proposalHashHex }

def evaluateEntry (crypto : Crypto) (entry : ChainEntry) (entryHashHex : JsString)
    (state : MutableChainState) : Except ChainInvalidReason (MutableChainState × Option AppliedOperation) :=
  match entry.operation with
  | .direct (.genesis p) =>
    .ok (applyGenesis p entry.actor entry.seq state,
      some { operation := .genesis p, actorUserId := entry.actor.userId })
  | operation =>
    match state.members.get? entry.actor.userId with
    | none => .error .actorNotMember
    | some member =>
      match member.devices.get? entry.actor.keyFingerprintHex with
      | none => .error .actorKeyMismatch
      | some device =>
        let actor := actorContextOf member device
        match operation with
        | .direct operation => evaluateDirect crypto operation actor state entry.seq
        | .propose p => (evaluatePropose crypto entry.seq p entryHashHex actor state).map (·, none)
        | .approve proposalHashHex =>
          evaluateApprove crypto entry.seq entry.timestampMs proposalHashHex actor state
        | .withdraw proposalHashHex => (evaluateWithdraw proposalHashHex actor state).map (·, none)

/-! ## The history recorders -/

def recordTenureStartOf (history : ChainHistoryBuilder) (state : MutableChainState) (userId : UserId)
    (seq : Nat) : ChainHistoryBuilder :=
  match state.members.get? userId with
  | none => history
  | some member =>
    match soleDeviceOf member with
    | none => history
    | some device => history.recordTenureStart userId seq device member.role member.scope

/-- The device add_device added, found in the applied state by its enc key. -/
def recordDeviceAddedOf (history : ChainHistoryBuilder) (state : MutableChainState) (actorUserId : UserId)
    (encPubHex : JsString) : ChainHistoryBuilder :=
  match (state.members.get? actorUserId).bind fun member =>
      member.devices.values.find? fun device => device.encPubHex = encPubHex with
  | none => history
  | some device => history.recordDeviceAdded actorUserId device

def recordHistory (history : ChainHistoryBuilder) (applied : AppliedOperation) (seq : Nat)
    (state : MutableChainState) : ChainHistoryBuilder :=
  match applied.operation with
  | .genesis _ => recordTenureStartOf history state applied.actorUserId seq
  | .addMember p => recordTenureStartOf history state p.targetUserId seq
  | .changeRole p =>
    history.recordRoleChange p.targetUserId seq p.newRole (memberScopeOf p.toScopePayloadFields)
  | .removeMember p => history.recordTenureEnd p.targetUserId seq
  | .createEnvironment p => history.recordEnvironmentCreated p.environmentId seq
  | .deleteEnvironment p => history.recordEnvironmentDeleted p.environmentId seq
  | .rotateEpoch p => history.recordEpochRotated p.environmentId p.newEpoch seq
  | .checkpoint p => history.recordCheckpoint seq p.environments
  | .grantServer _ => history
  | .revokeServer _ => history
  | .setApprovalPolicy _ => history
  | .addDevice p => recordDeviceAddedOf history state applied.actorUserId p.encPubHex
  | .revokeDevice p => history.recordDevicesRevoked p.targetUserId seq p.deviceFingerprintsHex

attribute [grind =] recordHistory

/-! ## The loop -/

/-- The checks before an entry is applied: framing, payload structure, actor, signature. -/
def checkEntryBeforeApply (crypto : Crypto) (entry : Json) (seq : Nat) (prevHash : JsString)
    (state : MutableChainState) : Except ChainInvalidReason ChainEntry :=
  if !entry.isRecord then .error .invalidPayload
  else match checkFraming entry seq prevHash with
    | some reason => .error reason
    | none =>
      match checkPayloadShape entry with
      | none => .error .invalidPayload
      | some entry =>
        match resolveActorSigPub crypto entry state with
        | .error reason => .error reason
        | .ok sigPubHex =>
          if verifyEntrySignature crypto entry sigPubHex then .ok entry else .error .badSignature

inductive VerifyFailure
  | chainInvalid (seq : Nat) (reason : ChainInvalidReason)
  | thrown
  deriving DecidableEq, Repr

/-- The variables of the verification loop. -/
structure LoopState where
  state : MutableChainState
  history : Option ChainHistoryBuilder
  prevHash : JsString
  seq : Nat

def LoopState.initial (history : Option ChainHistoryBuilder) : LoopState where
  state := .initial
  history := history
  prevHash := genesisPrevHash
  seq := 0

/-- One turn of the loop. -/
def verifyEntry (crypto : Crypto) (loop : LoopState) (entry : Json) : Except VerifyFailure LoopState :=
  let seq := loop.seq + 1
  match checkEntryBeforeApply crypto entry seq loop.prevHash loop.state with
  | .error reason => .error (.chainInvalid seq reason)
  | .ok entry =>
    match computeChainEntryHash crypto entry with
    | none => .error .thrown
    | some entryHashHex =>
      match evaluateEntry crypto entry entryHashHex loop.state with
      | .error reason => .error (.chainInvalid seq reason)
      | .ok (state, evaluated) =>
        .ok {
          state := state
          history := loop.history.map fun history =>
            (match evaluated with
              | none => history
              | some applied => recordHistory history applied seq state).recordEntryHash entryHashHex
          prevHash := entryHashHex
          seq := seq }

attribute [grind =] verifyEntry

def sealChainState (state : MutableChainState) (headSeq : Nat) (headHashHex : JsString) : ChainState where
  members := state.members
  serverGrants := state.serverGrants
  environments := state.environments
  checkpoints := state.checkpoints
  approvalPolicy := state.approvalPolicy
  pendingProposals := state.pendingProposals
  namedServerKeys := state.namedServerKeys
  headSeq := headSeq
  headHashHex := headHashHex

def verifyChainCore (crypto : Crypto) (entries : List Json) (history : Option ChainHistoryBuilder) :
    Except VerifyFailure (ChainState × Option ChainHistoryBuilder) :=
  if entries.isEmpty then .error (.chainInvalid 0 .emptyChain)
  else do
    let loop ← entries.foldlM (verifyEntry crypto) (.initial history)
    pure (sealChainState loop.state entries.length loop.prevHash, loop.history)

attribute [grind =] verifyChainCore

def verifyChain (crypto : Crypto) (entries : List Json) : Except VerifyFailure ChainState := do
  let (state, _) ← verifyChainCore crypto entries none
  pure state

def verifyChainWithHistory (crypto : Crypto) (entries : List Json) :
    Except VerifyFailure (ChainState × ChainHistoryIndex) := do
  let (state, history) ← verifyChainCore crypto entries (some .new)
  pure (state, (history.getD .new).build)

end Maruhi.Chain
