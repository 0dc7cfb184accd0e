import Maruhi.Proposals.Store

/-!
# The proposal programs (`programs-proposal.ts`)

A workload mints a proposal, a member resolves it, and the expired ones are swept on the way. An environment's
deletion closes its proposals.
-/

open Text

namespace Maruhi.Proposals
open Chain

/-! ## The chain -/

/-- The stored chain and the state derived from it. Fingerprints do not collide on it. -/
structure VerifiedChain (crypto : Crypto) where
  entries : List Json
  state : MutableChainState
  derived : stateAfter crypto entries = some state
  distinct : FingerprintsDistinct crypto entries

/-- Every member's devices, members by user id, devices by fingerprint. -/
def memberDevicesInOrder (members : OrderedMap UserId ChainMember) : List (ChainMember × ChainDevice) :=
  (members.values.insertionSort fun a b => a.userId ≤ b.userId).flatMap fun member =>
    (member.devices.values.insertionSort fun a b => a.keyFingerprintHex ≤ b.keyFingerprintHex).map fun device =>
      (member, device)

/-- W(E). -/
def proposalRecipientsOf (state : MutableChainState) (environmentId : EnvironmentId) : List (ChainMember × ChainDevice) :=
  (memberDevicesInOrder state.members).filter fun r =>
    let effective := effectivePermissionOf r.1 r.2.toDeviceCap
    roleRank .member ≤ roleRank effective.role && scopeIncludesEnvironment effective.scope environmentId

def recipientKey (userId : UserId) (encPubHex : JsString) : JsString := userId ++ 58 :: encPubHex

def proposalRecipientKeys (state : MutableChainState) (environmentId : EnvironmentId) : OrderedMap JsString Unit :=
  .setOf ((proposalRecipientsOf state environmentId).map fun r => recipientKey r.1.userId r.2.encPubHex)

/-! ## The log -/

inductive RotationEvent
  | proposed (proposalId : ProposalId) (variableIds : List VariableId) (claimsDigestHex : JsString) (grantChainSeq : Nat)
      (connector : RotationConnector)
  | accepted (proposalId : ProposalId) (versions : List (VariableId × Nat))
  | rejected (proposalId : ProposalId)
  | expired (proposalId : ProposalId) (expiresAtMs : Nat)
  | cancelled (proposalId : ProposalId)
  deriving DecidableEq, Repr

def RotationEvent.proposalId : RotationEvent → ProposalId
  | proposed id _ _ _ _ => id
  | accepted id _ => id
  | rejected id => id
  | expired id _ => id
  | cancelled id => id

def RotationEvent.opens : RotationEvent → Bool
  | proposed _ _ _ _ _ => true
  | _ => false

/-- `other` is an event about no proposal. -/
inductive LoggedEvent
  | rotation (event : RotationEvent)
  | other (event : JsString)
  deriving DecidableEq, Repr

/-- No user id is a system actor. -/
structure LogRow where
  event : LoggedEvent
  serverTs : Nat
  environmentId : Option EnvironmentId
  actorUserId : Option UserId
  actorKeyFingerprintHex : Option KeyFingerprintHex
  deriving DecidableEq, Repr

def systemRow (event : RotationEvent) (environmentId : EnvironmentId) (nowMs : Nat) : LogRow :=
  ⟨.rotation event, nowMs, some environmentId, none, none⟩

/-! ## The project -/

/-- `window` is the start and the count of the `proposed` window. -/
structure ProjectState (crypto : Crypto) where
  chain : VerifiedChain crypto
  mirror : Bool
  data : DataTables
  proposals : ProposalTables
  window : Option (Nat × Nat)
  log : List LogRow

variable {crypto : Crypto}

def ProjectState.append (s : ProjectState crypto) (rows : List LogRow) : ProjectState crypto :=
  { s with log := s.log ++ rows }

inductive LeaseRejection
  | unavailable
  | notFound
  | tokenReplayed
  | rateLimited (retryAfterSeconds : Nat)
  deriving DecidableEq, Repr

inductive RotationProposalRejectReason
  | mirrorReadOnly
  | storageLimit
  | duplicateId
  | duplicateVariable
  | variableInactive
  | baseVersionStale
  | recipientsMismatch
  | variablePending
  | pendingLimit
  | versionMissing
  deriving DecidableEq, Repr

inductive ProposalRejection
  | lease (rejection : LeaseRejection)
  | proposalRejected (reason : RotationProposalRejectReason)
  deriving DecidableEq, Repr

inductive DataRejection
  | notMember
  | insufficientRole
  | mirrorReadOnly
  | rotationProposalNotFound (proposalId : ProposalId)
  | rotationProposalRejected (reason : RotationProposalRejectReason)
  deriving DecidableEq, Repr

/-! ## Windows -/

def leaseWindowMs : Nat := 60 * 60 * 1000

def maxRotationProposalsPerWindow : Nat := 60

def maxPendingRotationProposals : Nat := 32

def maxProjectCiphertextTotalBytes : Nat := 1024 * 1024 * 1024

def dayMs : Nat := 24 * 60 * 60 * 1000

/-- The count and the time elapsed of a window that still runs. A clock that went back starts over. -/
def leaseWindowRow (window : Option (Nat × Nat)) (nowMs : Nat) : Option (Nat × Nat) :=
  window.bind fun row =>
    if nowMs < row.1 || leaseWindowMs ≤ nowMs - row.1 then none else some (row.2, nowMs - row.1)

/-- The seconds to wait, where the window is full. -/
def checkLeaseWindow (window : Option (Nat × Nat)) (limit nowMs : Nat) : Option Nat :=
  match leaseWindowRow window nowMs with
  | none => none
  | some (count, elapsed) => if count < limit then none else some ((leaseWindowMs - elapsed + 999) / 1000)

def recordLeaseWindowUse (window : Option (Nat × Nat)) (nowMs : Nat) : Option (Nat × Nat) :=
  match leaseWindowRow window nowMs with
  | none => some (nowMs, 1)
  | some _ => window.map fun row => (row.1, row.2 + 1)

/-! ## The sweep -/

def expiredRow (nowMs : Nat) (expired : RemovedProposal) : LogRow :=
  systemRow (.expired expired.proposalId expired.expiresAtMs) expired.environmentId nowMs

def sweepExpired (s : ProjectState crypto) (nowMs : Nat) (except : Option ProposalId) : ProjectState crypto :=
  let (tables, expired) := deleteExpiredProposals s.proposals nowMs except
  { s with proposals := tables }.append (expired.map (expiredRow nowMs))

/-! ## The checks -/

/-- One wrap: none where it is no recipient's, or its recipient's second. -/
def seeRecipient (expected seen : OrderedMap JsString Unit) (key : JsString) : Option (OrderedMap JsString Unit) :=
  if !expected.has key || seen.has key then none else some (seen.set key ())

def recipientsMatch (expected : OrderedMap JsString Unit) (wraps : List (UserId × JsString)) : Bool :=
  match (wraps.map fun wrap => recipientKey wrap.1 wrap.2).foldlM (seeRecipient expected) .empty with
  | none => false
  | some seen => seen.size = expected.size

def namesVariableTwice (variableIds : List VariableId) : Bool :=
  (OrderedMap.setOf variableIds).size ≠ variableIds.length

def ProposalWrapInput.recipient (wrap : ProposalWrapInput) : UserId × JsString :=
  (wrap.recipientUserId, wrap.recipientEncPubHex)

def variableRefusal (s : ProjectState crypto) (environmentId : EnvironmentId) (recipients : OrderedMap JsString Unit)
    (nowMs : Nat) (input : ProposalVariableInput) : Option RotationProposalRejectReason :=
  match findVariable s.data environmentId input.variableId with
  | none => some .variableInactive
  | some stored =>
    if stored.deletedAtMs.isSome || stored.latestStatus ≠ .active then some .variableInactive
    else if stored.latestVersion ≠ input.baseVersion then some .baseVersionStale
    else if !recipientsMatch recipients (input.wraps.map ProposalWrapInput.recipient) then some .recipientsMismatch
    else if variableHasPendingProposal s.proposals environmentId input.variableId nowMs then some .variablePending
    else none

/-- The proposal a workload mints, as the request's schema lets it in: the id is 16 bytes. -/
structure RotationProposalInput where
  proposalId : ProposalId
  connector : RotationConnector
  facts : List JsString
  expiresInDays : Nat
  variableInputs : List ProposalVariableInput
  id_hex : Checkpoint.isLowercaseHexOfLength proposalId 32 = true

def proposalCiphertextBytes (proposal : RotationProposalInput) : Nat :=
  (proposal.variableInputs.flatMap fun input => input.wraps.map fun wrap => wrap.ciphertextHex.length / 2).sum

def projectBytesExceeded (storedBytes addedBytes : Nat) : Bool :=
  maxProjectCiphertextTotalBytes < storedBytes + addedBytes

def proposalRefusal (s : ProjectState crypto) (environmentId : EnvironmentId) (proposal : RotationProposalInput)
    (nowMs : Nat) : Option RotationProposalRejectReason :=
  if proposalExists s.proposals proposal.proposalId then some .duplicateId
  else if namesVariableTwice (proposal.variableInputs.map (·.variableId)) then some .duplicateVariable
  else
    let recipients := proposalRecipientKeys s.chain.state environmentId
    match proposal.variableInputs.findSome? (variableRefusal s environmentId recipients nowMs) with
    | some reason => some reason
    | none =>
      if maxPendingRotationProposals ≤ countPendingProposals s.proposals nowMs then some .pendingLimit
      else if projectBytesExceeded (totalCiphertextBytes s.data s.proposals) (proposalCiphertextBytes proposal) then
        some .storageLimit
      else none

/-! ## The mint and its pre-flight -/

/-- What the lease's judgment comes to, with the seq of the grant. `recordsDenial` is whether its window still admits
a row for a denial, `storageRejects` the storage guard's answer. -/
structure WorkloadJudgment where
  authorization : Except LeaseRejection Nat
  recordsDenial : Bool
  storageRejects : Bool

def recordDenied (judgment : WorkloadJudgment) (nowMs : Nat) (s : ProjectState crypto) : ProjectState crypto :=
  if judgment.recordsDenial then s.append [⟨.other (lit "server.lease_denied"), nowMs, none, none, none⟩] else s

def newProposal (environmentId : EnvironmentId) (claimsDigestHex : JsString) (grantSeq nowMs : Nat)
    (proposal : RotationProposalInput) : NewProposal where
  proposalId := proposal.proposalId
  environmentId := environmentId
  connector := proposal.connector
  facts := proposal.facts
  claimsDigestHex := claimsDigestHex
  grantChainSeq := grantSeq
  expiresAtMs := nowMs + proposal.expiresInDays * dayMs
  variableInputs := proposal.variableInputs

def proposedEvent (claimsDigestHex : JsString) (grantSeq : Nat) (proposal : RotationProposalInput) : RotationEvent :=
  .proposed proposal.proposalId (proposal.variableInputs.map (·.variableId)) claimsDigestHex grantSeq proposal.connector

def proposeRotationProgram (s : ProjectState crypto) (nowMs : Nat) (environmentId : EnvironmentId)
    (judgment : WorkloadJudgment) (claimsDigestHex : JsString) (proposal : RotationProposalInput) :
    ProjectState crypto × Except ProposalRejection (ProposalId × Nat) :=
  match judgment.authorization with
  | .error rejection => (recordDenied judgment nowMs s, .error (.lease rejection))
  | .ok grantSeq =>
    if s.mirror then (s, .error (.proposalRejected .mirrorReadOnly))
    else if judgment.storageRejects then (s, .error (.proposalRejected .storageLimit))
    else match checkLeaseWindow s.window maxRotationProposalsPerWindow nowMs with
    | some retryAfterSeconds =>
      (recordDenied judgment nowMs s, .error (.lease (.rateLimited retryAfterSeconds)))
    | none =>
      let s := sweepExpired s nowMs none
      match proposalRefusal s environmentId proposal nowMs with
      | some reason => (s, .error (.proposalRejected reason))
      | none =>
        let stored := newProposal environmentId claimsDigestHex grantSeq nowMs proposal
        ({ s with
            window := recordLeaseWindowUse s.window nowMs
            proposals := insertProposal s.proposals stored nowMs }.append
          [systemRow (proposedEvent claimsDigestHex grantSeq proposal) environmentId nowMs],
         .ok (proposal.proposalId, stored.expiresAtMs))

def preflightVariable (s : ProjectState crypto) (environmentId : EnvironmentId) (nowMs : Nat)
    (named : VariableId × Nat) : Option RotationProposalRejectReason :=
  match findVariable s.data environmentId named.1 with
  | none => some .variableInactive
  | some stored =>
    if stored.deletedAtMs.isSome || stored.latestStatus ≠ .active then some .variableInactive
    else if stored.latestVersion ≠ named.2 then some .baseVersionStale
    else if variableHasPendingProposal s.proposals environmentId named.1 nowMs then some .variablePending
    else none

/-- The checks of the mint that need no sealed value. -/
def preflightRefusal (s : ProjectState crypto) (environmentId : EnvironmentId) (named : List (VariableId × Nat))
    (recipients : List (UserId × JsString)) (nowMs : Nat) : Option RotationProposalRejectReason :=
  if namesVariableTwice (named.map Prod.fst) then some .duplicateVariable
  else match named.findSome? (preflightVariable s environmentId nowMs) with
  | some reason => some reason
  | none =>
    if !recipientsMatch (proposalRecipientKeys s.chain.state environmentId) recipients then some .recipientsMismatch
    else if maxPendingRotationProposals ≤ countPendingProposals s.proposals nowMs then some .pendingLimit
    else none

def preflightRotationProgram (s : ProjectState crypto) (nowMs : Nat) (environmentId : EnvironmentId)
    (judgment : WorkloadJudgment) (named : List (VariableId × Nat)) (recipients : List (UserId × JsString)) :
    ProjectState crypto × Except ProposalRejection Unit :=
  match judgment.authorization with
  | .error rejection => (recordDenied judgment nowMs s, .error (.lease rejection))
  | .ok _ =>
    if s.mirror then (s, .error (.proposalRejected .mirrorReadOnly))
    else if judgment.storageRejects then (s, .error (.proposalRejected .storageLimit))
    else match checkLeaseWindow s.window maxRotationProposalsPerWindow nowMs with
    | some retryAfterSeconds => (s, .error (.lease (.rateLimited retryAfterSeconds)))
    | none =>
      let s := sweepExpired s nowMs none
      match preflightRefusal s environmentId named recipients nowMs with
      | some reason => (s, .error (.proposalRejected reason))
      | none => (s, .ok ())

/-! ## The member's operations -/

def requireMemberState (s : ProjectState crypto) (userId : UserId) (minimum : Role) : Except DataRejection ChainMember :=
  match s.chain.state.members.get? userId with
  | none => .error .notMember
  | some member => if roleRank minimum ≤ roleRank member.role then .ok member else .error .insufficientRole

/-- `#runWrite`: a mirror takes no write of a member. -/
def runWrite {α : Type} (s : ProjectState crypto) (userId : UserId)
    (program : ProjectState crypto → ProjectState crypto × Except DataRejection α) :
    ProjectState crypto × Except DataRejection α :=
  match requireMemberState s userId .reader with
  | .error rejection => (s, .error rejection)
  | .ok _ => if s.mirror then (s, .error .mirrorReadOnly) else program s

/-- A pending proposal with the caller's wraps only. -/
def ownView (tables : ProposalTables) (userId : UserId) (proposal : ProposalRow) :
    ProposalRow × List (ProposalVariableRow × List ProposalWrapRow) :=
  (proposal, (proposalVariables tables proposal.proposalId).map fun row =>
    (row, (proposalWraps tables proposal.proposalId row.variableId).filter fun wrap => wrap.recipientUserId = userId))

def listRotationProposalsProgram (s : ProjectState crypto) (nowMs : Nat) (userId : UserId) :
    ProjectState crypto × Except DataRejection (List (ProposalRow × List (ProposalVariableRow × List ProposalWrapRow))) :=
  match requireMemberState s userId .member with
  | .error rejection => (s, .error rejection)
  | .ok member =>
    let s := if s.mirror then s else sweepExpired s nowMs none
    (s, .ok (((listPendingProposals s.proposals nowMs).filter fun proposal =>
      scopeIncludesEnvironment member.scope proposal.environmentId).map (ownView s.proposals userId)))

/-- One proposed variable: the first version the caller names for it is stored and newer than the base. -/
def versionRefused (s : ProjectState crypto) (proposal : ProposalRow) (versions : List (VariableId × Nat))
    (named : ProposalVariableRow) : Bool :=
  match versions.find? fun entry => entry.1 = named.variableId with
  | none => true
  | some entry =>
    entry.2 ≤ named.baseVersion || (versionAnchor s.data proposal.environmentId named.variableId entry.2).isNone

def versionsRefusal (s : ProjectState crypto) (proposal : ProposalRow) (versions : List (VariableId × Nat)) :
    Option RotationProposalRejectReason :=
  if (proposalVariables s.proposals proposal.proposalId).any (versionRefused s proposal versions) then
    some .versionMissing
  else none

/-- An acceptance with the versions it names, or a rejection. -/
structure ProposalResolution where
  accepts : Bool
  versions : List (VariableId × Nat)

def resolutionEvent (proposalId : ProposalId) (resolution : ProposalResolution) : RotationEvent :=
  if resolution.accepts then .accepted proposalId resolution.versions else .rejected proposalId

def resolveRotationProposalProgram (nowMs : Nat) (userId : UserId) (proposalId : ProposalId)
    (resolution : ProposalResolution) (s : ProjectState crypto) : ProjectState crypto × Except DataRejection Unit :=
  match requireMemberState s userId .member with
  | .error rejection => (s, .error rejection)
  | .ok member =>
    let s := sweepExpired s nowMs (some proposalId)
    match findProposal s.proposals proposalId with
    | none => (s, .error (.rotationProposalNotFound proposalId))
    | some proposal =>
      if !scopeIncludesEnvironment member.scope proposal.environmentId then
        (s, .error (.rotationProposalNotFound proposalId))
      else match (if resolution.accepts then versionsRefusal s proposal resolution.versions else none) with
      | some reason => (s, .error (.rotationProposalRejected reason))
      | none =>
        ({ s with proposals := deleteProposalRows s.proposals proposalId }.append
          [⟨.rotation (resolutionEvent proposalId resolution), nowMs, some proposal.environmentId, some userId, none⟩],
         .ok ())

/-! ## An environment's deletion -/

def cancelledRow (userId : UserId) (fingerprint : KeyFingerprintHex) (nowMs : Nat) (proposal : RemovedProposal) : LogRow :=
  if proposal.expiresAtMs ≤ nowMs then expiredRow nowMs proposal
  else ⟨.rotation (.cancelled proposal.proposalId), nowMs, some proposal.environmentId, some userId, some fingerprint⟩

def memberRow (event : String) (environmentId : EnvironmentId) (userId : UserId) (fingerprint : KeyFingerprintHex)
    (nowMs : Nat) : LogRow :=
  ⟨.other (lit event), nowMs, some environmentId, some userId, some fingerprint⟩

/-- The write block of an accepted `delete_environment`: `next` is the chain with its entry. -/
def deleteEnvironmentWrites (nowMs : Nat) (environmentId : EnvironmentId) (userId : UserId)
    (fingerprint : KeyFingerprintHex) (next : VerifiedChain crypto) (s : ProjectState crypto) : ProjectState crypto :=
  let live := s.data.variableRows.filter fun row => row.environmentId = environmentId && row.deletedAtMs.isNone
  let (data, tables, removed) := retireEnvironment s.data s.proposals environmentId
  { s with chain := next, data := data, proposals := tables }.append
    ([memberRow "chain.environment_deleted" environmentId userId fingerprint nowMs] ++
      live.map (fun _ => memberRow "var.deleted" environmentId userId fingerprint nowMs) ++
      removed.map (cancelledRow userId fingerprint nowMs) ++
      [memberRow "env.deleted" environmentId userId fingerprint nowMs])

end Maruhi.Proposals
