import Maruhi.ProjectDo.ChainStore

/-!
# The operations of a project (`chain-accept.ts`, `chain-commit.ts`, `chain-do.ts`)

Every operation runs alone. A defect rolls the storage back to where the operation started; the memory is the
program's own to discard.
-/

open Text Faults

namespace Maruhi.ProjectDo

open Chain

variable {Event : Type} (setting : Setting Event)

/-! ## Acceptance -/

def maxEntryCanonicalBytes : Nat := 1024 * 1024

def maxChainEntries : Nat := 10000

def maxChainTotalCanonicalBytes : Nat := 12 * 1024 * 1024

def checkEntrySize (entry : ChainEntry) : Task Event Nat :=
  match canonicalChainEntryBytes entry with
  | none => Program.refuse .chainEntryInvalid
  | some bytes => do
    Program.require (bytes.length ≤ maxEntryCanonicalBytes) .chainEntryTooLarge
    pure bytes.length

def chainCapacityExceeded (entryCount totalCanonicalBytes addedEntries addedCanonicalBytes : Nat) : Bool :=
  entryCount + addedEntries > maxChainEntries || totalCanonicalBytes + addedCanonicalBytes > maxChainTotalCanonicalBytes

def ensureParentHead (chain : StoredChain) (parentHeadHashHex : JsString) : Task Event Unit :=
  Program.require (some parentHeadHashHex = chain.headHashHex) .chainHeadConflict

/-- `verifyChainEffect` with its failures as an acceptance maps them. -/
def verifyExtended (entries : List ChainEntry) : Task Event VerifiedChainView :=
  match verifyEntries setting entries with
  | .ok applied => pure applied
  | .error (.chainInvalid _ _) => Program.refuse .chainEntryInvalid
  | .error .thrown => Program.die

def verifyAcceptableEntry (chain : StoredChain) (entry : ChainEntry) : Task Event (Nat × VerifiedChainView) := do
  let canonicalBytes ← checkEntrySize entry
  Program.require (!chainCapacityExceeded chain.entries.length chain.totalCanonicalBytes 1 canonicalBytes)
    .chainCapacityExceeded
  let applied ← verifyExtended setting (chain.entries ++ [entry])
  pure (canonicalBytes, applied)

def verifyAcceptableEntryPair (chain : StoredChain) (first second : ChainEntry) :
    Task Event (Nat × Nat × VerifiedChainView) := do
  let firstCanonicalBytes ← checkEntrySize first
  let secondCanonicalBytes ← checkEntrySize second
  Program.require
    (!chainCapacityExceeded chain.entries.length chain.totalCanonicalBytes 2 (firstCanonicalBytes + secondCanonicalBytes))
    .chainCapacityExceeded
  let applied ← verifyExtended setting (chain.entries ++ [first, second])
  pure (firstCanonicalBytes, secondCanonicalBytes, applied)

/-- The events of an acceptance, one list for each append: the mirror rows, then the side effects' and the path's own. -/
structure Acceptance (Event : Type) where
  mirrorRows : List Event
  effects : List (List Event)

/-- Writes to other tables, with the appends between them. -/
def appendEach : List (List Event) → Task Event Unit
  | [] => mayDie
  | events :: rest => do
    mayDie
    appendManySync setting events
    appendEach rest

attribute [grind =] appendEach

def insertAcceptedEntrySync (entry : ChainEntry) (applied : VerifiedChainView) (canonicalBytes : Nat)
    (acceptance : Acceptance Event) : Task Event Unit := do
  insertSync entry applied.1.headHashHex canonicalBytes
  appendManySync setting acceptance.mirrorRows
  appendEach setting acceptance.effects

def insertAcceptedEntryPairSync (first second : ChainEntry) (applied : VerifiedChainView)
    (firstCanonicalBytes secondCanonicalBytes : Nat) (firstAcceptance secondAcceptance : Acceptance Event) :
    Task Event Unit := do
  insertSync first second.prevHashHex firstCanonicalBytes
  appendManySync setting firstAcceptance.mirrorRows
  appendEach setting firstAcceptance.effects
  insertSync second applied.1.headHashHex secondCanonicalBytes
  appendManySync setting secondAcceptance.mirrorRows
  appendEach setting secondAcceptance.effects

def commitAcceptedEntry (entry : ChainEntry) (applied : VerifiedChainView) (canonicalBytes : Nat)
    (acceptance : Acceptance Event) : Task Event Unit := do
  mayDie
  insertAcceptedEntrySync setting entry applied canonicalBytes acceptance

/-! ## Programs -/

def loadInitializedChain : Task Event StoredChain := do
  let chain ← loadChain setting
  Program.require (chain.headSeq ≠ 0 && chain.headHashHex.isSome) .notInitialized
  pure chain

/-- `requireMemberState`, and every guard that starts so. -/
def requireMemberState : Task Event (StoredChain × VerifiedChainView) := do
  let chain ← loadInitializedChain setting
  let view ← deriveStoredState setting chain
  judge
  pure (chain, view)

/-- What the acceptances of one entry share. -/
def acceptEntry (parentHeadHashHex : JsString) (entry : WireEntry setting) (acceptance : Acceptance Event) :
    Task Event Unit := do
  let (chain, _) ← requireMemberState setting
  ensureParentHead chain parentHeadHashHex
  judge
  let (canonicalBytes, applied) ← verifyAcceptableEntry setting chain entry
  judge
  commitAcceptedEntry setting entry applied canonicalBytes acceptance
  updateStateCache applied

def standaloneCheckpointProgram (parentHeadHashHex : JsString) (entry : WireEntry setting)
    (acceptance : Acceptance Event) : Task Event Unit := acceptEntry setting parentHeadHashHex entry acceptance

/-- The operations that only a composite appends. -/
def compositeRequired : ChainOperation → Bool
  | .direct (.createEnvironment _) => true
  | .direct (.rotateEpoch _) => true
  | .direct (.deleteEnvironment _) => true
  | _ => false

def appendProgram (parentHeadHashHex : JsString) (entry : WireEntry setting) (acceptance : Acceptance Event) :
    Task Event Unit := do
  Program.require (!compositeRequired entry.1.operation) .other
  match entry.1.operation with
  | .direct (.checkpoint _) => standaloneCheckpointProgram setting parentHeadHashHex entry acceptance
  | _ => acceptEntry setting parentHeadHashHex entry acceptance

def deleteEnvironmentCompositeProgram (parentHeadHashHex : JsString) (entry : WireEntry setting)
    (acceptance : Acceptance Event) : Task Event Unit := do
  Program.require (entry.1.prevHashHex = parentHeadHashHex) .other
  acceptEntry setting parentHeadHashHex entry acceptance

/-- `createEnvironmentCompositeProgram` and `rotateEpochCompositeProgram`: the entry and its boundary checkpoint. -/
def compositeProgram (parentHeadHashHex : JsString) (entry checkpoint : WireEntry setting)
    (entryAcceptance checkpointAcceptance : Acceptance Event) : Task Event Unit := do
  let (chain, _) ← requireMemberState setting
  ensureParentHead chain parentHeadHashHex
  judge
  let (firstCanonicalBytes, secondCanonicalBytes, applied) ← verifyAcceptableEntryPair setting chain entry checkpoint
  judge
  insertAcceptedEntryPairSync setting entry checkpoint applied firstCanonicalBytes secondCanonicalBytes entryAcceptance
    checkpointAcceptance
  updateStateCache applied

def ensureProjectDoTables : Task Event Unit := exec fun disk => some { disk with initialized := true }

def initProgram (expectedProjectId : JsString) (entry : WireEntry setting) (admitFresh : Bool)
    (acceptance : Acceptance Event) : Task Event Unit := do
  let chain ← loadChain setting
  if chain.headSeq > 0 then
    if chain.entries.isEmpty || chain.headHashHex.isNone then Program.die else Program.refuse .alreadyInitialized
  else do
    Program.require admitFresh .freshNotAdmitted
    let (canonicalBytes, applied) ← verifyAcceptableEntry setting chain entry
    Program.require (applied.1.headHashHex = expectedProjectId) .projectIdMismatch
    ensureProjectDoTables
    commitAcceptedEntry setting entry applied canonicalBytes acceptance
    updateStateCache applied

/-- A read or a write of the data plane, as the chain and the log see it: the events it appends. -/
def dataProgram (effects : List (List Event)) : Task Event Unit := do
  let _ ← requireMemberState setting
  appendEach setting effects
  judge

/-! ## The mirror -/

/-- What the pages of a replication brought, and which of its own events the mirror keeps. -/
structure Replica (Event : Type) where
  chainEntries : SeqTable ChainRow ChainRow.seq
  auditEvents : SeqTable (AuditRow Event) AuditRow.seq
  keeps : AuditRow Event → Bool

def stagedEntryOk (row : ChainRow) (seq : Nat) : Option ChainEntry := do
  let entry ← setting.decodeEntry row.entryJson
  guard (row.seq = seq && entry.seq = row.seq)
  guard (computeChainEntryHash setting.crypto entry = some row.entryHashHex)
  guard ((canonicalChainEntryBytes entry).map List.length = some row.canonicalBytes)
  pure entry

def verifyStagedChain (rows : List ChainRow) : Bool :=
  match (rows.zipIdx 1).mapM fun e => stagedEntryOk setting e.1 e.2 with
  | none => false
  | some entries => (verifyEntries setting entries).toBool

/-- Every live row is staged at the same seq with the same hash. -/
def verifyChainExtension (live staged : List ChainRow) : Bool :=
  live.all fun row => staged.any fun other => other.seq = row.seq && other.entryHashHex = row.entryHashHex

/-- The swap: the replica's rows, then the mirror's own events, renumbered. -/
def commitMirrorReplica (replica : Replica Event) (disk : Disk Event) : Option (Disk Event) := do
  guard disk.initialized
  let own := (disk.auditEvents.rows.filter replica.keeps).map AuditRow.event
  let auditEvents ← (own.zipIdx (replica.auditEvents.maxSeq + 1)).foldlM (fun table e => table.insert? ⟨e.2, e.1⟩)
    replica.auditEvents
  pure { disk with chainEntries := replica.chainEntries, auditEvents := auditEvents }

/-- `cache.chain = null`, `cache.current = null`, `resetSeqCacheSync()` -/
def discardMemory (w : World Event) : World Event :=
  { w with memory := { w.memory with current := none, chain := none, nextSeqCache := none } }

/-- One page; the last one brings the replica that the pages before it staged. -/
def mirrorPageProgram (replica : Option (Replica Event)) : Task Event Unit := do
  let _ ← requireMemberState setting
  let w ← Program.get
  Program.require w.disk.mirror .mirrorState
  judge
  mayDie
  judge
  match replica with
  | none => pure ()
  | some replica => do
    Program.require (verifyChainExtension w.disk.chainEntries.rows replica.chainEntries.rows &&
      verifyStagedChain setting replica.chainEntries.rows) .mirrorSyncRejected
    judge
    match commitMirrorReplica replica w.disk with
    -- the transaction is rolled back, and what it threw is a refusal
    | none => Program.refuse .mirrorSyncRejected
    | some disk => do
      mayDie
      Program.modify fun w => { w with disk := disk }
      Program.modify discardMemory
      mayDie

def markMirrorProgram : Task Event Unit := do
  let _ ← requireMemberState setting
  judge
  exec fun disk => some { disk with mirror := true }

def unmarkMirrorProgram : Task Event Unit := do
  let _ ← requireMemberState setting
  let w ← Program.get
  Program.require w.disk.mirror .mirrorState
  exec fun disk => some { disk with mirror := false }

/-! ## Restore -/

/-- The rows of an evacuation's body. -/
structure Body (Event : Type) where
  chainEntries : SeqTable ChainRow ChainRow.seq
  auditEvents : SeqTable (AuditRow Event) AuditRow.seq

/-- A refusal leaves the tables wiped. -/
def restoreSnapshot (body : Body Event) : Task Event Unit := do
  let w ← Program.get
  Program.require w.disk.chainEntries.rows.isEmpty .restoreRefused
  exec fun disk => some { disk with auditEvents := .empty }
  judge
  exec fun disk => some { disk with chainEntries := body.chainEntries, auditEvents := body.auditEvents }

def restoreProgram (body : Body Event) : Task Event Unit := do
  mayDie
  judge
  ensureProjectDoTables
  Program.ensuring discardMemory (restoreSnapshot body)
  mayDie

/-! ## The object -/

/-- `#latchInitialized`, of the memory. -/
def latch (w : World Event) : World Event :=
  { w with memory := { w.memory with initialized := w.memory.initialized || w.disk.initialized } }

def invalidateCachesOnDefect {A : Type} (program : Task Event A) : Task Event A := Program.onDefect discardMemory program

def runData (program : Task Event Unit) : Task Event Unit := do
  Program.modify latch
  let w ← Program.get
  Program.require w.memory.initialized .notInitialized
  invalidateCachesOnDefect program

def ensureWritable : Task Event Unit := do
  let w ← Program.get
  Program.require (!w.disk.mirror) .mirrorReadOnly

def runWrite (program : Task Event Unit) : Task Event Unit :=
  runData do
    let _ ← requireMemberState setting
    ensureWritable
    program

inductive Operation
  | init (expectedProjectId : JsString) (entry : WireEntry setting) (admitFresh : Bool) (acceptance : Acceptance Event)
  | append (parentHeadHashHex : JsString) (entry : WireEntry setting) (acceptance : Acceptance Event)
  | composite (parentHeadHashHex : JsString) (entry checkpoint : WireEntry setting)
    (entryAcceptance checkpointAcceptance : Acceptance Event)
  | deleteEnvironment (parentHeadHashHex : JsString) (entry : WireEntry setting) (acceptance : Acceptance Event)
  | read (effects : List (List Event))
  | write (effects : List (List Event))
  /-- A lease, a proposal or the chain of a lease: without the gate of `#runData`. -/
  | lease (effects : List (List Event))
  | mirrorPage (replica : Option (Replica Event))
  | markMirror
  | unmarkMirror
  | restore (body : Body Event)
  /-- The instance is dropped; the next operation finds a fresh one. -/
  | evict

def perform : Operation setting → Task Event Unit
  | .init expectedProjectId entry admitFresh acceptance => do
    invalidateCachesOnDefect (initProgram setting expectedProjectId entry admitFresh acceptance)
    Program.modify fun w => { w with memory := { w.memory with initialized := true } }
  | .append parentHeadHashHex entry acceptance =>
    runWrite setting (appendProgram setting parentHeadHashHex entry acceptance)
  | .composite parentHeadHashHex entry checkpoint entryAcceptance checkpointAcceptance =>
    runWrite setting
      (compositeProgram setting parentHeadHashHex entry checkpoint entryAcceptance checkpointAcceptance)
  | .deleteEnvironment parentHeadHashHex entry acceptance =>
    runWrite setting (deleteEnvironmentCompositeProgram setting parentHeadHashHex entry acceptance)
  | .read effects => runData (dataProgram setting effects)
  | .write effects => runWrite setting (dataProgram setting effects)
  | .lease effects => invalidateCachesOnDefect (dataProgram setting effects)
  | .mirrorPage replica => runData (mirrorPageProgram setting replica)
  | .markMirror => runData (markMirrorProgram setting)
  | .unmarkMirror => runData (unmarkMirrorProgram setting)
  | .restore body => restoreProgram body
  | .evict => Program.modify fun w => { w with memory := .fresh w.disk.initialized }

/-- An operation with the chance it meets. -/
structure Call where
  operation : Operation setting
  coins : List Bool

/-- What runs when the operation is over: a restore looks for the tables once more. -/
def settle : Operation setting → World Event → World Event
  | .restore _ => latch
  | _ => id

/-- A defect rolls the storage back. -/
def runCall (w : World Event) (call : Call setting) : World Event :=
  match perform setting call.operation { w with coins := call.coins } with
  | (.died, w') => settle setting call.operation { w' with disk := w.disk }
  | (_, w') => settle setting call.operation w'

/-- A project nobody has created, on a fresh instance. -/
def World.start : World Event where
  memory := .fresh false
  disk := ⟨false, .empty, .empty, false⟩
  coins := []
  seen := []

def run (calls : List (Call setting)) : World Event := calls.foldl (runCall setting) .start

end Maruhi.ProjectDo
