import Maruhi.Chain.Keys
import Maruhi.Checkpoint.Digest
import Maruhi.Lib.TextOrder
import Mathlib.Algebra.GroupWithZero.Nat
import Mathlib.Data.List.Sort

/-!
# Stored proposals (`data-store-proposal-queries.ts`, `data-store-write-ops.ts`)

A sealed value proposal is a head row, one row per variable, and one row per wrap. They are written together and
deleted together.
-/

open Text

namespace Maruhi.Proposals
open Chain Checkpoint

abbrev VariableId := JsString
abbrev ProposalId := JsString

/-! ## Variables and their versions -/

inductive VariableStatus
  | active
  | declared
  | deleted
  deriving DecidableEq, Repr

structure VariableRow where
  environmentId : EnvironmentId
  variableId : VariableId
  name : JsString
  latestMetaVersion : Nat
  latestVersion : Nat
  deletedAtMs : Option Nat
  deriving DecidableEq, Repr

structure VariableStatementRow where
  environmentId : EnvironmentId
  variableId : VariableId
  metaVersion : Nat
  status : VariableStatus
  deriving DecidableEq, Repr

structure VariableVersionRow where
  environmentId : EnvironmentId
  variableId : VariableId
  version : Nat
  ciphertextBytes : Nat
  deriving DecidableEq, Repr

structure DataTables where
  variableRows : List VariableRow
  statements : List VariableStatementRow
  versions : List VariableVersionRow

/-- The writes of the variable programs. -/
inductive VariableWrite
  | insertVariable (environmentId : EnvironmentId) (variableId : VariableId) (name : JsString)
  | insertVariableMetaStatement (environmentId : EnvironmentId) (variableId : VariableId) (metaVersion : Nat)
      (name : JsString) (status : VariableStatus)
  | retireVariable (environmentId : EnvironmentId) (variableId : VariableId)
  | insertVersion (environmentId : EnvironmentId) (variableId : VariableId) (version ciphertextBytes : Nat)
  deriving DecidableEq, Repr

def updateVariable (environmentId : EnvironmentId) (variableId : VariableId) (f : VariableRow → VariableRow)
    (rows : List VariableRow) : List VariableRow :=
  rows.map fun row => if row.environmentId = environmentId && row.variableId = variableId then f row else row

def DataTables.write (nowMs : Nat) (data : DataTables) : VariableWrite → DataTables
  | .insertVariable environmentId variableId name =>
    { data with variableRows := data.variableRows ++ [⟨environmentId, variableId, name, 0, 0, none⟩] }
  | .insertVariableMetaStatement environmentId variableId metaVersion name status =>
    { data with
      statements := data.statements ++ [⟨environmentId, variableId, metaVersion, status⟩]
      variableRows := updateVariable environmentId variableId
        (fun row => { row with name := name, latestMetaVersion := metaVersion }) data.variableRows }
  | .retireVariable environmentId variableId =>
    { data with
      variableRows := updateVariable environmentId variableId (fun row => { row with deletedAtMs := some nowMs })
        data.variableRows
      versions := data.versions.filter fun row => !(row.environmentId = environmentId && row.variableId = variableId) }
  | .insertVersion environmentId variableId version ciphertextBytes =>
    { data with
      versions := data.versions ++ [⟨environmentId, variableId, version, ciphertextBytes⟩]
      variableRows := updateVariable environmentId variableId (fun row => { row with latestVersion := version })
        data.variableRows }

structure StoredVariable where
  latestVersion : Nat
  latestStatus : VariableStatus
  deletedAtMs : Option Nat
  deriving DecidableEq, Repr

/-- The row with its latest statement. -/
def findVariable (data : DataTables) (environmentId : EnvironmentId) (variableId : VariableId) : Option StoredVariable := do
  let row ← data.variableRows.find? fun row => row.environmentId = environmentId && row.variableId = variableId
  let statement ← data.statements.find? fun statement => statement.environmentId = environmentId &&
    statement.variableId = variableId && statement.metaVersion = row.latestMetaVersion
  pure ⟨row.latestVersion, statement.status, row.deletedAtMs⟩

def versionAnchor (data : DataTables) (environmentId : EnvironmentId) (variableId : VariableId) (version : Nat) :
    Option VariableVersionRow :=
  data.versions.find? fun row =>
    row.environmentId = environmentId && row.variableId = variableId && row.version = version

/-! ## Proposals -/

inductive RotationConnector
  | awsIamAccessKey
  | cloudflareApiToken
  | postgres
  | mysql
  | exec
  deriving DecidableEq, Repr

structure ProposalRow where
  proposalId : ProposalId
  environmentId : EnvironmentId
  connector : RotationConnector
  facts : List JsString
  claimsDigestHex : JsString
  grantChainSeq : Nat
  createdAtMs : Nat
  expiresAtMs : Nat
  deriving DecidableEq, Repr

structure ProposalVariableRow where
  proposalId : ProposalId
  variableId : VariableId
  baseVersion : Nat
  position : Nat
  deriving DecidableEq, Repr

structure ProposalWrapRow where
  proposalId : ProposalId
  variableId : VariableId
  recipientUserId : UserId
  recipientEncPubHex : JsString
  encHex : JsString
  ciphertextHex : JsString
  deriving DecidableEq, Repr

structure ProposalTables where
  proposals : List ProposalRow
  variableRows : List ProposalVariableRow
  wraps : List ProposalWrapRow

/-- A proposed value sealed to one device, as the request's schema lets it in. -/
structure ProposalWrapInput where
  recipientUserId : UserId
  recipientEncPubHex : JsString
  encHex : JsString
  ciphertextHex : JsString
  enc_pub_hex : isLowercaseHexOfLength recipientEncPubHex 64 = true

structure ProposalVariableInput where
  variableId : VariableId
  baseVersion : Nat
  wraps : List ProposalWrapInput

structure NewProposal where
  proposalId : ProposalId
  environmentId : EnvironmentId
  connector : RotationConnector
  facts : List JsString
  claimsDigestHex : JsString
  grantChainSeq : Nat
  expiresAtMs : Nat
  variableInputs : List ProposalVariableInput

def proposalExists (tables : ProposalTables) (proposalId : ProposalId) : Bool :=
  tables.proposals.any fun row => row.proposalId = proposalId

def findProposal (tables : ProposalTables) (proposalId : ProposalId) : Option ProposalRow :=
  tables.proposals.find? fun row => row.proposalId = proposalId

/-- The variables of a proposal, in the order they were minted. -/
def proposalVariables (tables : ProposalTables) (proposalId : ProposalId) : List ProposalVariableRow :=
  (tables.variableRows.filter fun row => row.proposalId = proposalId).insertionSort fun a b => a.position ≤ b.position

def wrapBefore (a b : ProposalWrapRow) : Prop :=
  a.recipientUserId < b.recipientUserId ∨
    a.recipientUserId = b.recipientUserId ∧ a.recipientEncPubHex ≤ b.recipientEncPubHex

instance : DecidableRel wrapBefore := fun _ _ => inferInstanceAs (Decidable (_ ∨ _))

def proposalWraps (tables : ProposalTables) (proposalId : ProposalId) (variableId : VariableId) : List ProposalWrapRow :=
  (tables.wraps.filter fun row => row.proposalId = proposalId && row.variableId = variableId).insertionSort wrapBefore

def createdBefore (a b : ProposalRow) : Prop :=
  a.createdAtMs < b.createdAtMs ∨ a.createdAtMs = b.createdAtMs ∧ a.proposalId ≤ b.proposalId

instance : DecidableRel createdBefore := fun _ _ => inferInstanceAs (Decidable (_ ∨ _))

/-- Expired rows wait for the sweep, and are not listed. -/
def listPendingProposals (tables : ProposalTables) (nowMs : Nat) : List ProposalRow :=
  (tables.proposals.filter fun row => nowMs < row.expiresAtMs).insertionSort createdBefore

def countPendingProposals (tables : ProposalTables) (nowMs : Nat) : Nat :=
  tables.proposals.countP fun row => nowMs < row.expiresAtMs

def variableHasPendingProposal (tables : ProposalTables) (environmentId : EnvironmentId) (variableId : VariableId)
    (nowMs : Nat) : Bool :=
  tables.proposals.any fun row => tables.variableRows.any fun named =>
    named.proposalId = row.proposalId && row.environmentId = environmentId && named.variableId = variableId &&
      nowMs < row.expiresAtMs

/-- Versions, and the sealed values of the proposals. -/
def totalCiphertextBytes (data : DataTables) (tables : ProposalTables) : Nat :=
  (data.versions.map fun row => row.ciphertextBytes).sum +
    (tables.wraps.map fun row => row.ciphertextHex.length).sum / 2

def insertProposal (tables : ProposalTables) (proposal : NewProposal) (nowMs : Nat) : ProposalTables where
  proposals := tables.proposals ++ [
    { proposalId := proposal.proposalId
      environmentId := proposal.environmentId
      connector := proposal.connector
      facts := proposal.facts
      claimsDigestHex := proposal.claimsDigestHex
      grantChainSeq := proposal.grantChainSeq
      createdAtMs := nowMs
      expiresAtMs := proposal.expiresAtMs }]
  variableRows := tables.variableRows ++ proposal.variableInputs.mapIdx fun position input =>
    ⟨proposal.proposalId, input.variableId, input.baseVersion, position⟩
  wraps := tables.wraps ++ proposal.variableInputs.flatMap fun input => input.wraps.map fun wrap =>
    ⟨proposal.proposalId, input.variableId, wrap.recipientUserId, wrap.recipientEncPubHex, wrap.encHex,
      wrap.ciphertextHex⟩

def deleteProposalRows (tables : ProposalTables) (proposalId : ProposalId) : ProposalTables where
  proposals := tables.proposals.filter fun row => row.proposalId ≠ proposalId
  variableRows := tables.variableRows.filter fun row => row.proposalId ≠ proposalId
  wraps := tables.wraps.filter fun row => row.proposalId ≠ proposalId

/-- The closing material of a proposal that was removed. -/
structure RemovedProposal where
  proposalId : ProposalId
  environmentId : EnvironmentId
  expiresAtMs : Nat
  deriving DecidableEq, Repr

def removedProposalsOf (rows : List ProposalRow) : List RemovedProposal :=
  rows.map fun row => ⟨row.proposalId, row.environmentId, row.expiresAtMs⟩

def expiresBefore (a b : ProposalRow) : Prop :=
  a.expiresAtMs < b.expiresAtMs ∨ a.expiresAtMs = b.expiresAtMs ∧ a.proposalId ≤ b.proposalId

instance : DecidableRel expiresBefore := fun _ _ => inferInstanceAs (Decidable (_ ∨ _))

/-- The rows a condition selects leave, by their expiry. -/
def deleteProposalsWhere (tables : ProposalTables) (selected : ProposalRow → Bool) :
    ProposalTables × List RemovedProposal :=
  let removed := removedProposalsOf ((tables.proposals.filter selected).insertionSort expiresBefore)
  (removed.foldl (fun tables row => deleteProposalRows tables row.proposalId) tables, removed)

/-- Where no proposal is excepted, the empty id is. -/
def deleteExpiredProposals (tables : ProposalTables) (nowMs : Nat) (except : Option ProposalId) :
    ProposalTables × List RemovedProposal :=
  deleteProposalsWhere tables fun row => row.expiresAtMs ≤ nowMs && row.proposalId ≠ except.getD []

/-- An environment's rows. -/
def retireEnvironment (data : DataTables) (tables : ProposalTables) (environmentId : EnvironmentId) :
    DataTables × ProposalTables × List RemovedProposal :=
  ({ variableRows := data.variableRows.filter fun row => row.environmentId ≠ environmentId
     statements := data.statements.filter fun row => row.environmentId ≠ environmentId
     versions := data.versions.filter fun row => row.environmentId ≠ environmentId },
   deleteProposalsWhere tables fun row => row.environmentId = environmentId)

/-! ## What is removed -/

theorem foldl_deleteProposalRows (removed : List RemovedProposal) (tables : ProposalTables) :
    removed.foldl (fun tables row => deleteProposalRows tables row.proposalId) tables =
      { proposals := tables.proposals.filter fun row => row.proposalId ∉ removed.map (·.proposalId)
        variableRows := tables.variableRows.filter fun row => row.proposalId ∉ removed.map (·.proposalId)
        wraps := tables.wraps.filter fun row => row.proposalId ∉ removed.map (·.proposalId) } := by
  induction removed generalizing tables with
  | nil => simp
  | cons row rest ih =>
    rw [List.foldl_cons, ih]
    simp only [deleteProposalRows, List.filter_filter, List.map_cons, List.mem_cons, not_or, Bool.decide_and, ne_eq]
    simp only [Bool.and_comm]

theorem mem_removed {tables : ProposalTables} {selected : ProposalRow → Bool} {removed : RemovedProposal} :
    removed ∈ (deleteProposalsWhere tables selected).2 ↔ ∃ row ∈ tables.proposals, selected row = true ∧
      removed = ⟨row.proposalId, row.environmentId, row.expiresAtMs⟩ := by
  unfold deleteProposalsWhere removedProposalsOf
  simp only [List.mem_map, (List.perm_insertionSort expiresBefore _).mem_iff, List.mem_filter]
  constructor
  · rintro ⟨row, ⟨hrow, hselected⟩, rfl⟩
    exact ⟨row, hrow, hselected, rfl⟩
  · rintro ⟨row, hrow, hselected, rfl⟩
    exact ⟨row, ⟨hrow, hselected⟩, rfl⟩

end Maruhi.Proposals
