import Maruhi.Chain.Wire

/-!
# The chain mirror of the audit log (`audit.ts`, `chain-accept.ts`)

Each accepted entry is mirrored by one row. An approve that completes its proposal adds the row of the
operation it applied.
-/

open Text

namespace Maruhi.Audit
open Chain

inductive AuditEventName
  | chainGenesis
  | chainMemberAdded
  | chainMemberRemoved
  | chainRoleChanged
  | chainEnvironmentCreated
  | chainEnvironmentDeleted
  | chainEpochRotated
  | chainServerGranted
  | chainServerRevoked
  | chainCheckpointed
  | chainApprovalPolicyChanged
  | chainProposed
  | chainApproved
  | chainProposalWithdrawn
  | chainDeviceAdded
  | chainDeviceRevoked
  | varCreated
  | varDeleted
  | varRead
  | serverLeaseIssued
  | serverValueDecrypted
  | rotationRecommended
  | other (name : JsString)
  deriving DecidableEq, Repr

inductive ActorType
  | user
  | server
  | system
  deriving DecidableEq, Repr

structure AuditEventRecord where
  event : AuditEventName
  serverTs : Nat
  clientTs : Option Nat
  actorType : ActorType
  actorUserId : Option UserId
  actorKeyFingerprintHex : Option KeyFingerprintHex
  targetUserId : Option UserId
  targetKeyFingerprintHex : Option KeyFingerprintHex
  environmentId : Option EnvironmentId
  variableId : Option JsString
  epoch : Option Nat
  chainSeq : Option Nat
  payload : Option Json

/-- The part of a mirror row that the operation determines. -/
structure MirrorTail where
  event : AuditEventName
  targetUserId : Option UserId := none
  targetKeyFingerprintHex : Option KeyFingerprintHex := none
  environmentId : Option EnvironmentId := none
  epoch : Option Nat := none
  payload : Option Json := none

inductive MirrorError
  | referencedProposalRequired (op : JsString)
  | addedDeviceRequired
  | unindexedProposal (seq : Nat) (op : JsString)
  | keysNotHex
  deriving DecidableEq, Repr

/-! ## The proposal index -/

structure ProposeEntry where
  entry : ChainEntry
  payload : ProposePayload
  operation_eq : entry.operation = .propose payload

structure IndexedProposal where
  entry : ProposeEntry
  completedAtSeq : Option Nat

abbrev ProposalIndex := OrderedMap JsString IndexedProposal

structure SeenProposal where
  entry : ProposeEntry
  lastApproveSeq : Option Nat

/-- The variables of the indexing loop. -/
structure IndexState where
  proposals : OrderedMap JsString SeenProposal
  withdrawn : OrderedMap JsString Unit

def indexEntry (entryHashAt : Nat → Option JsString) (acc : IndexState) (entry : ChainEntry) : IndexState :=
  match h : entry.operation with
  | .direct _ => acc
  | .propose p =>
    match entryHashAt entry.seq with
    | none => acc
    | some hash => { acc with proposals := acc.proposals.set hash ⟨⟨entry, p, h⟩, none⟩ }
  | .approve proposalHashHex =>
    match acc.proposals.get? proposalHashHex with
    | none => acc
    | some proposal =>
      { acc with proposals := acc.proposals.set proposalHashHex { proposal with lastApproveSeq := some entry.seq } }
  | .withdraw proposalHashHex => { acc with withdrawn := acc.withdrawn.set proposalHashHex () }

attribute [grind =] indexEntry

def indexEntries (entries : List ChainEntry) (entryHashAt : Nat → Option JsString) : IndexState :=
  entries.foldl (indexEntry entryHashAt) ⟨.empty, .empty⟩

/-- Completion is read off the rules: a proposal that is neither pending nor withdrawn was completed by the last approve
naming it. -/
def indexProposals (entries : List ChainEntry) (entryHashAt : Nat → Option JsString)
    (pendingHashes : OrderedMap JsString Unit) : ProposalIndex :=
  let acc := indexEntries entries entryHashAt
  .ofEntries (acc.proposals.entries.map fun e =>
    let closedByQuorum := !pendingHashes.has e.1 && !acc.withdrawn.has e.1
    (e.1, { entry := e.2.entry, completedAtSeq := if closedByQuorum then e.2.lastApproveSeq else none }))

def proposalIndexOf (entries : List ChainEntry) (applied : ChainState × ChainHistoryIndex) : ProposalIndex :=
  indexProposals entries applied.2.entryHashAt (.setOf applied.1.pendingProposals.keys)

/-! ## The rows of an operation -/

/-- The proposal an approve or a withdraw names, and whether an approve completed it. -/
structure ReferencedProposal where
  proposalChainSeq : Nat
  completed : Bool

/-- The actor an operation is attributed to, and what the entry alone cannot tell. -/
structure MirrorSubject where
  actor : ChainActor
  addedDeviceKeyFingerprintHex : Option KeyFingerprintHex := none
  viaProposalSeq : Option Nat := none
  referenced : Option ReferencedProposal := none

def viaOf (subject : MirrorSubject) : List (String × Json) :=
  subject.viaProposalSeq.elim [] fun seq => [("viaProposalSeq", .ofNat seq)]

def viaOnly (subject : MirrorSubject) : Option Json :=
  subject.viaProposalSeq.map fun seq => .object [("viaProposalSeq", .ofNat seq)]

def referencedOf (subject : MirrorSubject) (op : JsString) : Except MirrorError ReferencedProposal :=
  subject.referenced.elim (.error (.referencedProposalRequired op)) .ok

def proposableTailOf (operation : ProposableOperation) (subject : MirrorSubject) : Except MirrorError MirrorTail :=
  match operation with
  | .genesis _ =>
    .ok { event := .chainGenesis, targetUserId := some subject.actor.userId, payload := viaOnly subject }
  | .addMember p =>
    .ok { event := .chainMemberAdded, targetUserId := some p.targetUserId
          payload := some (.object ([("role", .str (roleName p.role))] ++ scopeFields p.toScopePayloadFields ++
            viaOf subject)) }
  | .removeMember p =>
    .ok { event := .chainMemberRemoved, targetUserId := some p.targetUserId, payload := viaOnly subject }
  | .changeRole p =>
    .ok { event := .chainRoleChanged, targetUserId := some p.targetUserId
          payload := some (.object ([("newRole", .str (roleName p.newRole))] ++ scopeFields p.toScopePayloadFields ++
            viaOf subject)) }
  | .createEnvironment p =>
    .ok { event := .chainEnvironmentCreated, environmentId := some p.environmentId, epoch := some 1
          payload := some (.object ([("dekCommitmentHex", .str p.dekCommitmentHex)] ++ viaOf subject)) }
  | .deleteEnvironment p =>
    .ok { event := .chainEnvironmentDeleted, environmentId := some p.environmentId, payload := viaOnly subject }
  | .rotateEpoch p =>
    .ok { event := .chainEpochRotated, environmentId := some p.environmentId, epoch := some p.newEpoch
          payload := some (.object ([("reason", .str p.reason), ("dekCommitmentHex", .str p.dekCommitmentHex)] ++
            viaOf subject)) }
  | .grantServer p =>
    -- The lease policy stays on the chain.
    .ok { event := .chainServerGranted, targetKeyFingerprintHex := some p.serverKeyFingerprintHex
          payload := some (.object ([("scopeEnvironmentIds", stringsJson p.scopeEnvironmentIds)] ++ viaOf subject)) }
  | .revokeServer p =>
    .ok { event := .chainServerRevoked, targetKeyFingerprintHex := some p.serverKeyFingerprintHex
          payload := viaOnly subject }
  | .checkpoint p =>
    .ok { event := .chainCheckpointed
          payload := some (.object ([("environments", .arr (p.environments.map tupleJson)),
            ("auditHeadHashHex", .str p.auditHeadHashHex)] ++ viaOf subject)) }
  | .setApprovalPolicy p =>
    .ok { event := .chainApprovalPolicyChanged
          payload := some (.object ([("ops", stringsJson (p.ops.map approvalTargetOpName)),
            ("requiredApprovals", .ofNat p.requiredApprovals)] ++ viaOf subject)) }
  | .addDevice p =>
    match subject.addedDeviceKeyFingerprintHex with
    | none => .error .addedDeviceRequired
    | some fingerprintHex =>
      .ok { event := .chainDeviceAdded, targetUserId := some subject.actor.userId
            payload := some (.object ([("deviceKeyFingerprint", .str fingerprintHex),
              ("roleCap", .str (roleName p.roleCap))] ++ scopeFields p.toScopePayloadFields ++ viaOf subject)) }
  | .revokeDevice p =>
    .ok { event := .chainDeviceRevoked, targetUserId := some p.targetUserId
          payload := some (.object ([("deviceKeyFingerprints", stringsJson p.deviceFingerprintsHex)] ++ viaOf subject)) }

def mirrorTailOf (operation : ChainOperation) (subject : MirrorSubject) : Except MirrorError MirrorTail :=
  match operation with
  | .direct operation => proposableTailOf operation subject
  | .propose p =>
    .ok { event := .chainProposed
          payload := some (.object [("innerOp", .str (proposableOpName p.inner)), ("expiresAtMs", .ofNat p.expiresAtMs)]) }
  | .approve _ =>
    (referencedOf subject (lit "approve")).map fun referenced =>
      { event := .chainApproved
        payload := some (.object [("proposalChainSeq", .ofNat referenced.proposalChainSeq),
          ("completed", .bool referenced.completed)]) }
  | .withdraw _ =>
    (referencedOf subject (lit "withdraw")).map fun referenced =>
      { event := .chainProposalWithdrawn
        payload := some (.object [("proposalChainSeq", .ofNat referenced.proposalChainSeq)]) }

/-- `base` and `rowOf` of the mapping. -/
def mirrorRowOf (entry : ChainEntry) (serverTs : Nat) (actor : ChainActor) (tail : MirrorTail) : AuditEventRecord where
  event := tail.event
  serverTs := serverTs
  clientTs := some entry.timestampMs
  actorType := .user
  actorUserId := some actor.userId
  actorKeyFingerprintHex := some actor.keyFingerprintHex
  targetUserId := tail.targetUserId
  targetKeyFingerprintHex := tail.targetKeyFingerprintHex
  environmentId := tail.environmentId
  variableId := none
  epoch := tail.epoch
  chainSeq := some entry.seq
  payload := tail.payload

def referencedProposal (entry : ChainEntry) (proposalHashHex : JsString) (index : ProposalIndex) :
    Except MirrorError IndexedProposal :=
  (index.get? proposalHashHex).elim (.error (.unindexedProposal entry.seq (opName entry.operation))) .ok

/-- The mirror row of an entry, and the applied row of an approve that completed its proposal. -/
def chainMirrorEvents (entry : ChainEntry) (serverTs : Nat) (index : ProposalIndex)
    (addedDeviceKeyFingerprintHex : Option KeyFingerprintHex) : Except MirrorError (List AuditEventRecord) :=
  match entry.operation with
  | .direct (.addDevice _) => do
    let tail ← mirrorTailOf entry.operation { actor := entry.actor, addedDeviceKeyFingerprintHex }
    pure [mirrorRowOf entry serverTs entry.actor tail]
  | .withdraw proposalHashHex => do
    let proposal ← referencedProposal entry proposalHashHex index
    let tail ← mirrorTailOf entry.operation
      { actor := entry.actor, referenced := some ⟨proposal.entry.entry.seq, false⟩ }
    pure [mirrorRowOf entry serverTs entry.actor tail]
  | .approve proposalHashHex => do
    let proposal ← referencedProposal entry proposalHashHex index
    let completed := proposal.completedAtSeq = some entry.seq
    let tail ← mirrorTailOf entry.operation
      { actor := entry.actor, referenced := some ⟨proposal.entry.entry.seq, completed⟩ }
    let approved := mirrorRowOf entry serverTs entry.actor tail
    if !completed then pure [approved]
    else
      -- The inner operation is the proposer's, at this entry's seq and time.
      let proposer := proposal.entry.entry.actor
      let inner ← mirrorTailOf (.direct proposal.entry.payload.inner)
        { actor := proposer, viaProposalSeq := some proposal.entry.entry.seq }
      pure [approved, mirrorRowOf entry serverTs proposer inner]
  | _ => do
    let tail ← mirrorTailOf entry.operation { actor := entry.actor }
    pure [mirrorRowOf entry serverTs entry.actor tail]

/-! ## The write phase -/

/-- The fingerprint of the key an add_device puts on the chain. -/
def mirrorSubjectOf (crypto : Crypto) (entry : ChainEntry) : Except MirrorError (Option KeyFingerprintHex) :=
  match entry.operation with
  | .direct (.addDevice p) =>
    match decodeHex p.encPubHex, decodeHex p.sigPubHex with
    | some _, some _ => .ok (some (userFingerprintHex crypto p.encPubHex p.sigPubHex))
    | _, _ => .error .keysNotHex
  | _ => .ok none

/-- What an entry's acceptance appends, from the proposals of a chain it stands on. -/
def mirrorRows (crypto : Crypto) (entry : ChainEntry) (serverTs : Nat) (index : ProposalIndex) :
    Except MirrorError (List AuditEventRecord) := do
  let subject ← mirrorSubjectOf crypto entry
  chainMirrorEvents entry serverTs index subject

inductive CommitError
  | refused (failure : VerifyFailure)
  | unread
  | mirror (error : MirrorError)
  deriving DecidableEq, Repr

/-- The chain as stored, and the rows its acceptances appended. -/
structure StoredProject where
  entries : List Json
  rows : List AuditEventRecord

/-- One acceptance: the chain with the entry verifies, and its rows are written under the index of that chain. -/
def commitAcceptedEntry (crypto : Crypto) (serverTs : Nat → Nat) (stored : StoredProject) (j : Json) :
    Except CommitError StoredProject :=
  let entries := stored.entries ++ [j]
  match verifyChainWithHistory crypto entries with
  | .error failure => .error (.refused failure)
  | .ok applied =>
    match checkPayloadShape j with
    | none => .error .unread
    | some entry =>
      match mirrorRows crypto entry (serverTs entry.seq) (proposalIndexOf (entries.filterMap checkPayloadShape) applied) with
      | .error error => .error (.mirror error)
      | .ok rows => .ok { entries := entries, rows := stored.rows ++ rows }

/-- A project built entry by entry. -/
def writeMirror (crypto : Crypto) (serverTs : Nat → Nat) (entries : List Json) : Except CommitError StoredProject :=
  entries.foldlM (commitAcceptedEntry crypto serverTs) ⟨[], []⟩

/-- The rows of every entry under the index of the whole chain. -/
def mirrorOfChain (crypto : Crypto) (serverTs : Nat → Nat) (entries : List Json) (applied : ChainState × ChainHistoryIndex) :
    Except MirrorError (List AuditEventRecord) :=
  let read := entries.filterMap checkPayloadShape
  let index := proposalIndexOf read applied
  (read.mapM fun entry => mirrorRows crypto entry (serverTs entry.seq) index).map List.flatten

end Maruhi.Audit
