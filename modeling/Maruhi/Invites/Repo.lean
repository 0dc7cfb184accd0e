import Maruhi.Chain.Types
import Maruhi.Lib.SqlTable
import Mathlib.Data.Rat.Floor

/-!
# The repository of project invitations (`db.package/invites.ts`)

Each batch is one transaction; `changes()` is the number of rows the statement before it changed.
-/

open Text

namespace Maruhi.Invites
open Chain (UserId EnvironmentId KeyFingerprintHex ScopePayloadFields)

abbrev ProjectId := JsString
abbrev InviteId := JsString

/-! ## Limits -/

def inviteTtlMs : Int := 7 * 24 * 60 * 60 * 1000
def inviteIssueWindowMs : Int := 60 * 60 * 1000
def inviteIssueWindowLimit : Nat := 30
def maxPendingInvitesPerProject : Nat := 100

/-! ## Rows -/

inductive InviteRole
  | reader
  | member
  | admin
  deriving DecidableEq, Repr

inductive InviteStatus
  | pending
  | accepted
  | completed
  | revoked
  deriving DecidableEq, Repr

/-- The issue document, stored without verifying. -/
structure InviteIssuance where
  linkPubHex : JsString
  headHashHex : JsString
  headSeq : Nat
  issueSignatureHex : JsString
  deriving DecidableEq, Repr

structure InviteCreateInput where
  id : InviteId
  projectId : ProjectId
  role : InviteRole
  scope : ScopePayloadFields
  inviterUserId : UserId
  issuance : InviteIssuance
  deriving DecidableEq, Repr

structure InviteAcceptInput where
  inviteId : InviteId
  inviteeUserId : UserId
  inviteeEncPubHex : JsString
  inviteeSigPubHex : JsString
  acceptSignatureHex : JsString
  linkSignatureHex : JsString
  inviteeKeyFingerprintHex : KeyFingerprintHex
  deriving DecidableEq, Repr

structure InviteCompletionTarget where
  projectId : ProjectId
  inviteeUserId : UserId
  inviteeEncPubHex : JsString
  inviteeSigPubHex : JsString
  deriving DecidableEq, Repr

structure InviteAcceptance where
  inviteeUserId : UserId
  inviteeEncPubHex : JsString
  inviteeSigPubHex : JsString
  acceptSignatureHex : JsString
  linkSignatureHex : JsString
  acceptedAtMs : Int
  deriving DecidableEq, Repr

structure InvitationRow where
  id : InviteId
  projectId : ProjectId
  linkPub : JsString
  headHash : JsString
  headSeq : Nat
  issueSignature : JsString
  role : InviteRole
  scope : ScopePayloadFields
  inviterUserId : UserId
  status : InviteStatus
  expiresAt : Int
  inviteeUserId : Option UserId
  inviteeEncPub : Option JsString
  inviteeSigPub : Option JsString
  acceptSignature : Option JsString
  linkSignature : Option JsString
  acceptedAt : Option Int
  createdAt : Int
  deriving DecidableEq, Repr

/-- The acceptance block: only when all six columns are there. -/
def acceptanceOf (row : InvitationRow) : Option InviteAcceptance :=
  match row.inviteeUserId, row.inviteeEncPub, row.inviteeSigPub, row.acceptSignature, row.linkSignature,
    row.acceptedAt with
  | some inviteeUserId, some inviteeEncPubHex, some inviteeSigPubHex, some acceptSignatureHex, some linkSignatureHex,
    some acceptedAtMs =>
    some { inviteeUserId, inviteeEncPubHex, inviteeSigPubHex, acceptSignatureHex, linkSignatureHex, acceptedAtMs }
  | _, _, _, _, _, _ => none

/-! ## The audit log -/

structure D1AuditActor where
  userId : Option UserId
  apiTokenId : Option JsString
  authMethod : Option JsString
  deriving DecidableEq, Repr

inductive InviteAuditPayload
  | created (inviteId : InviteId) (role : InviteRole)
  | accepted (inviteId : InviteId) (inviteeKeyFingerprintHex : KeyFingerprintHex)
  | revoked (inviteId : InviteId) (role : InviteRole)
  deriving DecidableEq, Repr

inductive InviteAuditEvent
  | created
  | accepted
  | revoked
  deriving DecidableEq, Repr

def InviteAuditPayload.event : InviteAuditPayload → InviteAuditEvent
  | created _ _ => .created
  | accepted _ _ => .accepted
  | revoked _ _ => .revoked

def InviteAuditPayload.inviteId : InviteAuditPayload → InviteId
  | created id _ => id
  | accepted id _ => id
  | revoked id _ => id

structure OrgAuditRow where
  serverTs : Int
  actorUserId : Option UserId
  actorApiTokenId : Option JsString
  targetUserId : Option UserId
  projectId : ProjectId
  authMethod : Option JsString
  payload : InviteAuditPayload
  deriving DecidableEq, Repr

/-! ## Tables -/

/-- The primary key and `inv_link_pub`. -/
inductive UniqueColumn
  | id
  | linkPub
  deriving DecidableEq, Repr

def InvitationRow.column : UniqueColumn → InvitationRow → JsString
  | .id => InvitationRow.id
  | .linkPub => InvitationRow.linkPub

theorem UniqueColumn.forall {p : UniqueColumn → Prop} (hid : p .id) (hlink : p .linkPub) (column : UniqueColumn) :
    p column := by
  cases column
  · exact hid
  · exact hlink

structure D1 where
  invitations : SqlTable InvitationRow.column
  orgAuditEvents : List OrgAuditRow

/-- The stored invitation of an id. -/
def D1.row? (db : D1) (id : InviteId) : Option InvitationRow := db.invitations.find? .id id

/-- `INSERT … SELECT … FROM invitations WHERE id = … AND changes() = 1` -/
def guardedAuditInsert (invitations : SqlTable InvitationRow.column) (changes : Nat) (actor : D1AuditActor)
    (targetUserId : Option UserId) (payload : InviteAuditPayload) (nowMs : Int) : List OrgAuditRow :=
  (invitations.rows.filter fun row => row.id = payload.inviteId && changes = 1).map fun row =>
    { serverTs := nowMs, actorUserId := actor.userId, actorApiTokenId := actor.apiTokenId, targetUserId
      projectId := row.projectId, authMethod := actor.authMethod, payload }

/-! ## `create` -/

inductive InviteIssueDecision
  | created
  | conflict (field : UniqueColumn)
  | pendingLimit (limit : Nat)
  | rateLimited (retryAfterSeconds : Int)
  deriving DecidableEq, Repr

def unexpired (projectId : ProjectId) (nowMs : Int) (row : InvitationRow) : Bool :=
  row.projectId = projectId && row.status = .pending && row.expiresAt > nowMs

def issuedSince (projectId : ProjectId) (startMs : Int) (row : InvitationRow) : Bool :=
  row.projectId = projectId && row.createdAt ≥ startMs

def pendingAvailable (invitations : SqlTable InvitationRow.column) (projectId : ProjectId) (nowMs : Int) : Bool :=
  invitations.count (unexpired projectId nowMs) < maxPendingInvitesPerProject

def windowAvailable (invitations : SqlTable InvitationRow.column) (projectId : ProjectId) (nowMs : Int) : Bool :=
  invitations.count (issuedSince projectId (nowMs - inviteIssueWindowMs)) < inviteIssueWindowLimit

def issuedRow (input : InviteCreateInput) (nowMs : Int) : InvitationRow where
  id := input.id
  projectId := input.projectId
  linkPub := input.issuance.linkPubHex
  headHash := input.issuance.headHashHex
  headSeq := input.issuance.headSeq
  issueSignature := input.issuance.issueSignatureHex
  role := input.role
  scope := input.scope
  inviterUserId := input.inviterUserId
  status := .pending
  expiresAt := nowMs + inviteTtlMs
  inviteeUserId := none
  inviteeEncPub := none
  inviteeSigPub := none
  acceptSignature := none
  linkSignature := none
  acceptedAt := none
  createdAt := nowMs

/-- The statement's new table and its changes; an error is the unique column the store names, `first` where
both refuse. -/
def conditionalInviteInsert (invitations : SqlTable InvitationRow.column) (input : InviteCreateInput) (nowMs : Int)
    (first : UniqueColumn) : Except UniqueColumn (SqlTable InvitationRow.column × Nat) :=
  if pendingAvailable invitations input.projectId nowMs && windowAvailable invitations input.projectId nowMs then
    if h : invitations.taken (issuedRow input nowMs) .id = false ∧
        invitations.taken (issuedRow input nowMs) .linkPub = false then
      .ok (invitations.insert (issuedRow input nowMs) (UniqueColumn.forall h.1 h.2), 1)
    else if invitations.taken (issuedRow input nowMs) first then .error first
    else .error (match first with | .id => .linkPub | .linkPub => .id)
  else .ok (invitations, 0)

/-- The SELECT before the batch. -/
def existingConflict (invitations : SqlTable InvitationRow.column) (input : InviteCreateInput) : Option UniqueColumn :=
  (invitations.rows.find? fun row => row.id = input.id || row.linkPub = input.issuance.linkPubHex).map fun found =>
    if found.id = input.id then .id else .linkPub

def issueBatch (db : D1) (input : InviteCreateInput) (nowMs : Int) (actor : D1AuditActor) (first : UniqueColumn) :
    Except UniqueColumn (D1 × Bool) := do
  let (invitations, changes) ← conditionalInviteInsert db.invitations input nowMs first
  let audit := guardedAuditInsert invitations changes actor none (.created input.id input.role) nowMs
  return ({ invitations, orgAuditEvents := db.orgAuditEvents ++ audit }, changes = 1)

/-- The first re-read of `inviteIssueRejection`. -/
def pendingRejection (invitations : SqlTable InvitationRow.column) (projectId : ProjectId) (nowMs : Int) :
    Option InviteIssueDecision :=
  if invitations.count (unexpired projectId nowMs) ≥ maxPendingInvitesPerProject then
    some (.pendingLimit maxPendingInvitesPerProject)
  else none

/-- `min(created_at)` of the lookback window. -/
def oldestSince (invitations : SqlTable InvitationRow.column) (projectId : ProjectId) (startMs : Int) : Option Int :=
  ((invitations.rows.filter (issuedSince projectId startMs)).map InvitationRow.createdAt).min?

/-- The second re-read. -/
def windowRejection (invitations : SqlTable InvitationRow.column) (projectId : ProjectId) (nowMs : Int) :
    Option InviteIssueDecision :=
  if invitations.count (issuedSince projectId (nowMs - inviteIssueWindowMs)) < inviteIssueWindowLimit then none
  else
    let oldest := (oldestSince invitations projectId (nowMs - inviteIssueWindowMs)).getD nowMs
    let remainingMs := oldest + inviteIssueWindowMs - nowMs
    some (.rateLimited (max 1 ⌈(remainingMs : Rat) / 1000⌉))

def inviteIssueRejection (invitations : SqlTable InvitationRow.column) (projectId : ProjectId) (nowMs : Int) :
    Option InviteIssueDecision :=
  (pendingRejection invitations projectId nowMs).or (windowRejection invitations projectId nowMs)

/-- Nothing refused on the re-read: the race of the insert with a revocation. -/
def explained (rejection : Option InviteIssueDecision) : InviteIssueDecision := rejection.getD (.rateLimited 1)

/-- `create` with nothing in between its requests. -/
def create (db : D1) (input : InviteCreateInput) (nowMs : Int) (actor : D1AuditActor) (first : UniqueColumn) :
    D1 × InviteIssueDecision :=
  match existingConflict db.invitations input with
  | some field => (db, .conflict field)
  | none =>
    match issueBatch db input nowMs actor first with
    | .error field => (db, .conflict field)
    | .ok (db', true) => (db', .created)
    | .ok (db', false) => (db', explained (inviteIssueRejection db'.invitations input.projectId nowMs))

/-! ## `acceptCas`, `revokeCas` and `completeAccepted` -/

def acceptable (inviteId : InviteId) (nowMs : Int) (row : InvitationRow) : Bool :=
  row.id = inviteId && row.status = .pending && row.expiresAt > nowMs

def acceptedRow (input : InviteAcceptInput) (nowMs : Int) (row : InvitationRow) : InvitationRow :=
  { row with
    status := .accepted
    inviteeUserId := some input.inviteeUserId
    inviteeEncPub := some input.inviteeEncPubHex
    inviteeSigPub := some input.inviteeSigPubHex
    acceptSignature := some input.acceptSignatureHex
    linkSignature := some input.linkSignatureHex
    acceptedAt := some nowMs }

def InviteAcceptInput.acceptance (input : InviteAcceptInput) (nowMs : Int) : InviteAcceptance where
  inviteeUserId := input.inviteeUserId
  inviteeEncPubHex := input.inviteeEncPubHex
  inviteeSigPubHex := input.inviteeSigPubHex
  acceptSignatureHex := input.acceptSignatureHex
  linkSignatureHex := input.linkSignatureHex
  acceptedAtMs := nowMs

@[simp] theorem acceptanceOf_acceptedRow (input : InviteAcceptInput) (nowMs : Int) (row : InvitationRow) :
    acceptanceOf (acceptedRow input nowMs row) = some (input.acceptance nowMs) := rfl

theorem acceptedRow_column (input : InviteAcceptInput) (nowMs : Int) (column : UniqueColumn) (row : InvitationRow) :
    (acceptedRow input nowMs row).column column = row.column column := by
  cases column <;> rfl

def acceptCas (db : D1) (input : InviteAcceptInput) (nowMs : Int) (actor : D1AuditActor) : D1 × Bool :=
  let changes := db.invitations.count (acceptable input.inviteId nowMs)
  let invitations := db.invitations.update (acceptable input.inviteId nowMs) (acceptedRow input nowMs)
    (acceptedRow_column input nowMs)
  let audit := guardedAuditInsert invitations changes actor (some input.inviteeUserId)
    (.accepted input.inviteId input.inviteeKeyFingerprintHex) nowMs
  ({ invitations, orgAuditEvents := db.orgAuditEvents ++ audit }, changes = 1)

def InvitationRow.withStatus (status : InviteStatus) (row : InvitationRow) : InvitationRow := { row with status }

theorem withStatus_column (status : InviteStatus) (column : UniqueColumn) (row : InvitationRow) :
    (row.withStatus status).column column = row.column column := by
  cases column <;> rfl

def revocable (projectId : ProjectId) (id : InviteId) (row : InvitationRow) : Bool :=
  row.id = id && row.projectId = projectId && (row.status = .pending || row.status = .accepted)

def revokeCas (db : D1) (projectId : ProjectId) (id : InviteId) (role : InviteRole) (nowMs : Int)
    (actor : D1AuditActor) : D1 × Bool :=
  let changes := db.invitations.count (revocable projectId id)
  let invitations := db.invitations.update (revocable projectId id) (InvitationRow.withStatus .revoked)
    (withStatus_column .revoked)
  let audit := guardedAuditInsert invitations changes actor none (.revoked id role) nowMs
  ({ invitations, orgAuditEvents := db.orgAuditEvents ++ audit }, changes = 1)

/-- A comparison with NULL is not true. -/
def completable (target : InviteCompletionTarget) (row : InvitationRow) : Bool :=
  row.projectId = target.projectId && row.inviteeUserId = some target.inviteeUserId && row.status = .accepted &&
    row.inviteeEncPub = some target.inviteeEncPubHex && row.inviteeSigPub = some target.inviteeSigPubHex

def completeAccepted (db : D1) (target : InviteCompletionTarget) : D1 where
  invitations := db.invitations.update (completable target) (InvitationRow.withStatus .completed)
    (withStatus_column .completed)
  orgAuditEvents := db.orgAuditEvents

end Maruhi.Invites
