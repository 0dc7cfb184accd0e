import Maruhi.Chain.Wire
import Maruhi.Lib.Faults
import Maruhi.Lib.JsonText
import Maruhi.Lib.SeqTable
import Mathlib.Algebra.GroupWithZero.Nat

/-!
# The chain and the audit log of a project (`chain-store.ts`, `audit-store.ts`)

What is stored, and what an instance keeps in memory: the parsed chain, its derived view, the next audit sequence number.
-/

open Text JsonText Faults

namespace Maruhi.ProjectDo

open Chain

/-! ## The text of an entry -/

mutual
/-- A value whose numbers are natural, as an entry's are. -/
def valueOf : Json → Value Nat
  | .null => .null
  | .bool b => .bool b
  | .num (.int n) => .num n.toNat
  | .num .fraction => .null
  | .str s => .str s
  | .arr items => .arr (itemsOf items)
  | .obj fields => .obj (membersOf fields)

def itemsOf : List Json → Items Nat
  | [] => .nil
  | item :: rest => .cons (valueOf item) (itemsOf rest)

def membersOf : List (JsString × Json) → Members Nat
  | [] => .nil
  | (key, value) :: rest => .cons key (valueOf value) (membersOf rest)
end

attribute [grind =] valueOf itemsOf membersOf

/-- `JSON.stringify(entry)` -/
def entryText (entry : ChainEntry) : JsString := stringify naturals (valueOf (entryJson entry))

/-! ## What is stored -/

/-- A row of `chain_entries`. -/
structure ChainRow where
  seq : Nat
  entryJson : JsString
  entryHashHex : JsString
  canonicalBytes : Nat
  deriving DecidableEq

/-- A row of `audit_events`. -/
structure AuditRow (Event : Type) where
  seq : Nat
  event : Event

/-- The storage of a project. `mirror` is the mark of `mirror_state`. -/
structure Disk (Event : Type) where
  initialized : Bool
  chainEntries : SeqTable ChainRow ChainRow.seq
  auditEvents : SeqTable (AuditRow Event) AuditRow.seq
  mirror : Bool

/-! ## What an instance keeps -/

structure StoredChain where
  entries : List ChainEntry
  /-- 0 where nothing is stored. -/
  headSeq : Nat
  headHashHex : Option JsString
  genesisHashHex : Option JsString
  totalCanonicalBytes : Nat

abbrev VerifiedChainView := ChainState × ChainHistoryIndex

structure CachedView where
  headHashHex : JsString
  verified : VerifiedChainView

/-- `StateCache`, `nextSeqCache` and `#initialized`. -/
structure Memory where
  current : Option CachedView
  chain : Option StoredChain
  nextSeqCache : Option Nat
  initialized : Bool

/-- A fresh instance. -/
def Memory.fresh (initialized : Bool) : Memory := ⟨none, none, none, initialized⟩

/-- What an operation was given, with the storage it was given it from. -/
inductive Seen (Event : Type)
  | loaded (chain : Option StoredChain) (disk : Disk Event)
  | derived (view : Except VerifyFailure VerifiedChainView) (disk : Disk Event)
  | assigned (seq : Nat) (disk : Disk Event)

/-- `coins` say which checks refuse and which steps die. -/
structure World (Event : Type) where
  memory : Memory
  disk : Disk Event
  coins : List Bool
  seen : List (Seen Event)

inductive Refusal
  | notInitialized
  | alreadyInitialized
  | freshNotAdmitted
  | projectIdMismatch
  | chainHeadConflict
  | chainEntryInvalid
  | chainEntryTooLarge
  | chainCapacityExceeded
  | mirrorReadOnly
  | mirrorState
  | mirrorSyncRejected
  | restoreRefused
  | other
  deriving DecidableEq, Repr

/-- The cryptography, the reader of a stored entry (`ChainEntrySchema` on its JSON text), and the check of an event. -/
structure Setting (Event : Type) where
  crypto : Crypto
  decodeEntry : JsString → Option ChainEntry
  appendable : Event → Bool

variable {Event : Type}

abbrev Task (Event A : Type) := Program (World Event) Refusal A

/-- An entry as it comes in a request: it was read by the schema, and its text is read back as it is. -/
abbrev WireEntry (setting : Setting Event) := { entry : ChainEntry // setting.decodeEntry (entryText entry) = some entry }

namespace World

def setChain (w : World Event) (chain : Option StoredChain) : World Event := { w with memory.chain := chain }

def setCurrent (w : World Event) (current : Option CachedView) : World Event := { w with memory.current := current }

def setNextSeq (w : World Event) (nextSeq : Option Nat) : World Event := { w with memory.nextSeqCache := nextSeq }

def saw (w : World Event) (seen : Seen Event) : World Event := { w with seen := w.seen ++ [seen] }

end World

/-! ## Chance -/

def toss : Task Event Bool := fun w =>
  match w.coins with
  | [] => (.done false, w)
  | coin :: rest => (.done coin, { w with coins := rest })

/-- A check that is not about the chain: a role, a scope, a limit, a policy. -/
def judge : Task Event Unit := do
  let refuses ← toss
  Program.require (!refuses) .other

def mayDie : Task Event Unit := do
  let dies ← toss
  if dies then Program.die else pure ()

/-- `sql.exec` of a write: it may throw, and throws where a constraint refuses the row. -/
def exec (write : Disk Event → Option (Disk Event)) : Task Event Unit := do
  mayDie
  let w ← Program.get
  let disk ← Program.orDie (write w.disk)
  Program.modify fun w => { w with disk := disk }

/-! ## Loading -/

structure LoadedRows where
  entries : List ChainEntry
  hashes : List JsString
  lastSeq : Option Nat
  addedBytes : Nat

variable (setting : Setting Event)

/-- None where a row does not decode, or the table does not exist. -/
def loadRowsAfter (disk : Disk Event) (afterSeq : Nat) : Option LoadedRows := do
  guard disk.initialized
  let rows := disk.chainEntries.after afterSeq
  let entries ← rows.mapM fun row => setting.decodeEntry row.entryJson
  pure {
    entries := entries
    hashes := rows.map ChainRow.entryHashHex
    lastSeq := rows.getLast?.map ChainRow.seq
    addedBytes := (rows.map ChainRow.canonicalBytes).sum }

def emptyChain : StoredChain := ⟨[], 0, none, none, 0⟩

def mergeLoadedDiff (base : StoredChain) (diff : LoadedRows) : StoredChain where
  entries := base.entries ++ diff.entries
  headSeq := diff.lastSeq.getD base.headSeq
  headHashHex := diff.hashes.getLast?.or base.headHashHex
  genesisHashHex := base.genesisHashHex.or diff.hashes.head?
  totalCanonicalBytes := base.totalCanonicalBytes + diff.addedBytes

/-- A full read of `chain_entries`. -/
def fullRead (disk : Disk Event) : Option StoredChain :=
  if disk.initialized then (loadRowsAfter setting disk 0).map (mergeLoadedDiff emptyChain) else some emptyChain

/-- The chain, and what the cache holds afterwards; none where the read throws. -/
def loadedChain (disk : Disk Event) (cached : Option StoredChain) : Option (StoredChain × Option StoredChain) :=
  if cached.isNone && !disk.initialized then some (emptyChain, none)
  else
    let base := cached.getD emptyChain
    (loadRowsAfter setting disk base.headSeq).map fun diff =>
      if diff.entries.isEmpty && cached.isSome then (base, cached)
      else
        let chain := mergeLoadedDiff base diff
        (chain, some chain)

/-- `store.load` -/
def loadChain : Task Event StoredChain := do
  let w ← Program.get
  let loaded := loadedChain setting w.disk w.memory.chain
  Program.modify fun w => w.saw (.loaded (loaded.map Prod.fst) w.disk)
  let (chain, cached) ← Program.orDie loaded
  Program.modify fun w => w.setChain cached
  pure chain

/-! ## Inserting -/

def insertRow (row : ChainRow) (disk : Disk Event) : Option (Disk Event) := do
  guard disk.initialized
  let chainEntries ← disk.chainEntries.insert? row
  pure { disk with chainEntries := chainEntries }

/-- The cached chain with one entry more; none where the entry does not follow it. -/
def extendCached (cached : Option StoredChain) (entry : ChainEntry) (entryHashHex : JsString) (canonicalBytes : Nat) :
    Option StoredChain :=
  match cached with
  | none => none
  | some cached =>
    if entry.seq = cached.headSeq + 1 then
      some {
        entries := cached.entries ++ [entry]
        headSeq := entry.seq
        headHashHex := some entryHashHex
        genesisHashHex := cached.genesisHashHex.or (some entryHashHex)
        totalCanonicalBytes := cached.totalCanonicalBytes + canonicalBytes }
    else none

def insertSync (entry : ChainEntry) (entryHashHex : JsString) (canonicalBytes : Nat) : Task Event Unit := do
  exec (insertRow ⟨entry.seq, entryText entry, entryHashHex, canonicalBytes⟩)
  Program.modify fun w => w.setChain (extendCached w.memory.chain entry entryHashHex canonicalBytes)

/-! ## The derived view -/

def verifyEntries (entries : List ChainEntry) : Except VerifyFailure VerifiedChainView :=
  verifyChainWithHistory setting.crypto (entries.map entryJson)

def updatedCurrent (current : Option CachedView) (verified : VerifiedChainView) : Option CachedView :=
  match current with
  | none => some ⟨verified.1.headHashHex, verified⟩
  | some cached =>
    if cached.verified.1.headSeq ≤ verified.1.headSeq then some ⟨verified.1.headHashHex, verified⟩ else some cached

def updateStateCache (verified : VerifiedChainView) : Task Event Unit :=
  Program.modify fun w => w.setCurrent (updatedCurrent w.memory.current verified)

/-- The cached view where it is of the chain's head. -/
def cachedView (current : Option CachedView) (chain : StoredChain) : Option VerifiedChainView :=
  match current with
  | none => none
  | some cached => if some cached.headHashHex = chain.headHashHex then some cached.verified else none

def deriveStoredState (chain : StoredChain) : Task Event VerifiedChainView := do
  let w ← Program.get
  match cachedView w.memory.current chain with
  | some verified =>
    Program.modify fun w => w.saw (.derived (.ok verified) w.disk)
    pure verified
  | none =>
    let result := verifyEntries setting chain.entries
    Program.modify fun w => w.saw (.derived result w.disk)
    let verified ← Program.orDie result.toOption
    updateStateCache verified
    pure verified

/-! ## The audit log -/

/-- `nextSeq` -/
def nextSeq : Task Event Nat := do
  let w ← Program.get
  let seq := w.memory.nextSeqCache.getD (w.disk.auditEvents.maxSeq + 1)
  Program.modify fun w => (w.setNextSeq (some seq)).saw (.assigned seq w.disk)
  pure seq

def appendChunkRows : Nat := 5

/-- The rows of one statement, from a sequence number on. -/
def insertEvents (seq : Nat) (events : List Event) (disk : Disk Event) : Option (Disk Event) := do
  guard disk.initialized
  let auditEvents ← (events.zipIdx seq).foldlM (fun table e => table.insert? ⟨e.2, e.1⟩) disk.auditEvents
  pure { disk with auditEvents := auditEvents }

def resetSeqCache : World Event → World Event := fun w => w.setNextSeq none

def appendChunk (chunk : List Event) : Task Event Unit := do
  let seq ← nextSeq
  Program.onDefect resetSeqCache (exec (insertEvents seq chunk))
  Program.modify fun w => w.setNextSeq (some (seq + chunk.length))

def appendChunks : List (List Event) → Task Event Unit
  | [] => pure ()
  | chunk :: rest => do
    appendChunk chunk
    appendChunks rest

attribute [grind =] appendChunks

/-- `appendManySync`; `appendSync` is its case of one event. -/
def appendManySync (events : List Event) : Task Event Unit := do
  Program.orDie (guard (events.all setting.appendable))
  appendChunks (events.toChunks appendChunkRows)

end Maruhi.ProjectDo
