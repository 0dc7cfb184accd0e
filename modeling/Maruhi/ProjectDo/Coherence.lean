import Maruhi.Chain.Runs
import Maruhi.Lib.Framing
import Maruhi.Lib.Run
import Maruhi.ProjectDo.Operations

/-!
# The memory of an instance against its storage

What an operation loads, derives and assigns is what the storage says, in every sequence of operations.
-/

open Text Faults Framing

namespace Maruhi.ProjectDo

open Chain

variable {Event : Type} {setting : Setting Event}

/-! ## What the verifier says of sequence numbers -/

theorem entryJson_seq (entry : ChainEntry) : ((entryJson entry).get "seq").nat? = some entry.seq := by
  have hseq : (entryJson entry).get "seq" = .ofNat entry.seq := by
    simp [entryJson, Json.get, Json.object, Json.find?, List.lookup_cons, lit]
  rw [hseq, Json.nat?_ofNat]

theorem reaches_seq {crypto : Crypto} {loop loop' : LoopState} {entries : List ChainEntry}
    (h : Run.Reaches (verifyEntry crypto) loop (entries.map entryJson) loop') :
    ∀ i entry, entries[i]? = some entry → entry.seq = loop.seq + i + 1 := by
  induction entries generalizing loop with
  | nil => exact fun i entry hi => by simp at hi
  | cons first rest ih =>
    obtain ⟨mid, hmid, hrest⟩ := (Run.reaches_cons _ _ _ _).mp h
    obtain ⟨read, hash, applied, hstep⟩ := verifyEntry_ok hmid
    have hread := (checkPayloadShape_fields hstep.shape).2.1
    rw [entryJson_seq] at hread
    have hfirst : first.seq = loop.seq + 1 := (Option.some.inj hread).trans hstep.framed.seq_eq
    intro i entry hi
    cases i with
    | zero =>
      cases hi
      exact hfirst
    | succ i =>
      have hseq := ih hrest i entry hi
      rw [hstep.seq_eq] at hseq
      omega

theorem verifyEntries_seq {entries : List ChainEntry} {view : VerifiedChainView}
    (h : verifyEntries setting entries = .ok view) :
    view.1.headSeq = entries.length ∧ ∀ i entry, entries[i]? = some entry → entry.seq = i + 1 := by
  obtain ⟨st, index⟩ := view
  obtain ⟨-, loop, hrun, rfl⟩ := verifyChain_ok_iff.mp (verifyChain_of_withHistory h)
  refine ⟨List.length_map _, fun i entry hi => ?_⟩
  have hseq := reaches_seq hrun i entry hi
  have hzero : (LoopState.initial none).seq = 0 := rfl
  omega

/-! ## A full read -/

/-- Every stored entry sits at its own sequence number. -/
def InPlace (setting : Setting Event) (rows : List ChainRow) : Prop :=
  ∀ row ∈ rows, ∀ entry, setting.decodeEntry row.entryJson = some entry → entry.seq = row.seq

/-- The chain with one entry more. -/
def StoredChain.extend (chain : StoredChain) (entry : ChainEntry) (entryHashHex : JsString) (canonicalBytes : Nat) :
    StoredChain where
  entries := chain.entries ++ [entry]
  headSeq := entry.seq
  headHashHex := some entryHashHex
  genesisHashHex := chain.genesisHashHex.or (some entryHashHex)
  totalCanonicalBytes := chain.totalCanonicalBytes + canonicalBytes

theorem fullRead_initialized {disk : Disk Event} {chain : StoredChain} (hinit : disk.initialized = true)
    (h : fullRead setting disk = some chain) :
    ∃ entries, (disk.chainEntries.after 0).mapM (fun row => setting.decodeEntry row.entryJson) = some entries ∧
      chain = mergeLoadedDiff emptyChain ⟨entries, (disk.chainEntries.after 0).map ChainRow.entryHashHex,
        (disk.chainEntries.after 0).getLast?.map ChainRow.seq,
        ((disk.chainEntries.after 0).map ChainRow.canonicalBytes).sum⟩ := by
  unfold fullRead at h
  rw [if_pos hinit] at h
  obtain ⟨loaded, hloaded, rfl⟩ := Option.map_eq_some_iff.mp h
  unfold loadRowsAfter at hloaded
  rw [hinit] at hloaded
  simp only [guard, Option.bind_eq_bind, Option.bind_eq_some_iff, Option.pure_def, Option.some.injEq, if_true] at hloaded
  obtain ⟨-, -, entries, hentries, rfl⟩ := hloaded
  exact ⟨entries, hentries, rfl⟩

theorem le_headSeq {disk : Disk Event} {chain : StoredChain} (hinit : disk.initialized = true)
    (h : fullRead setting disk = some chain) {row : ChainRow} (hm : row ∈ disk.chainEntries.rows) :
    row.seq ≤ chain.headSeq := by
  obtain ⟨entries, hentries, rfl⟩ := fullRead_initialized hinit h
  rcases Nat.eq_zero_or_pos row.seq with hzero | hpos
  · omega
  · have hle := disk.chainEntries.ordered
    have hrow : row ∈ disk.chainEntries.after 0 := List.mem_filter.mpr ⟨hm, by simpa using hpos⟩
    have hafter := (⟨disk.chainEntries.after 0, hle.filter _⟩ : SeqTable ChainRow ChainRow.seq).le_maxSeq hrow
    exact hafter

theorem loadRowsAfter_head {disk : Disk Event} {chain : StoredChain} (hinit : disk.initialized = true)
    (h : fullRead setting disk = some chain) : disk.chainEntries.after chain.headSeq = [] := by
  apply List.filter_eq_nil_iff.mpr
  intro row hm
  simpa using le_headSeq hinit h hm

theorem headSeq_eq_length {disk : Disk Event} {chain : StoredChain} (hplace : InPlace setting disk.chainEntries.rows)
    (h : fullRead setting disk = some chain)
    (hseq : ∀ i entry, chain.entries[i]? = some entry → entry.seq = i + 1) : chain.headSeq = chain.entries.length := by
  cases hinit : disk.initialized with
  | false =>
    unfold fullRead at h
    rw [hinit, if_neg Bool.false_ne_true] at h
    cases h
    rfl
  | true =>
    obtain ⟨entries, hentries, rfl⟩ := fullRead_initialized hinit h
    have hmem : ∀ row ∈ disk.chainEntries.after 0, row ∈ disk.chainEntries.rows :=
      fun row hm => (List.mem_filter.mp hm).1
    generalize disk.chainEntries.after 0 = rows at *
    simp only [mergeLoadedDiff, emptyChain, List.nil_append] at hseq ⊢
    rcases List.eq_nil_or_concat rows with rfl | ⟨init, last, rfl⟩
    · cases hentries
      rfl
    · simp only [List.concat_eq_append, List.mapM_append, List.mapM_cons, List.mapM_nil, Option.bind_eq_bind,
        Option.bind_eq_some_iff, Option.pure_def, Option.some.injEq] at hentries
      obtain ⟨front, -, back, ⟨entry, hentry, rest, rfl, rfl⟩, rfl⟩ := hentries
      have hlast := hseq front.length entry (by simp)
      have hrow := hplace last (hmem last (by simp)) entry hentry
      simp only [List.concat_eq_append, List.getLast?_append, List.getLast?_singleton, Option.some_or, Option.map_some,
        Option.getD_some, List.length_append, List.length_singleton]
      omega

/-! ## Coherence -/

/-- What was seen agrees with the storage it was seen of. -/
def Seen.Right (setting : Setting Event) : Seen Event → Prop
  | .loaded chain disk => chain = fullRead setting disk
  | .derived view disk => ∃ chain, fullRead setting disk = some chain ∧ view = verifyEntries setting chain.entries
  | .assigned seq disk => seq = disk.auditEvents.maxSeq + 1

/-- A claim about a world, whatever chance it meets. -/
abbrev Assertion (Event : Type) := Memory → Disk Event → List (Seen Event) → Prop

def AllRight (setting : Setting Event) : Assertion Event := fun _ _ seen => ∀ o ∈ seen, o.Right setting

/-- Everything but the derived view. -/
structure Loose (setting : Setting Event) (memory : Memory) (disk : Disk Event) (seen : List (Seen Event)) : Prop where
  chain : ∀ chain, memory.chain = some chain → disk.initialized = true ∧ fullRead setting disk = some chain
  seq : ∀ n, memory.nextSeqCache = some n → n = disk.auditEvents.maxSeq + 1
  blank : disk.initialized = false → disk.chainEntries.rows = []
  inPlace : InPlace setting disk.chainEntries.rows
  right : AllRight setting memory disk seen

/-- The view in memory is the verified one of the stored entries. -/
structure Coherent (setting : Setting Event) (memory : Memory) (disk : Disk Event) (seen : List (Seen Event)) : Prop where
  loose : Loose setting memory disk seen
  view : ∀ cached, memory.current = some cached → ∃ chain, fullRead setting disk = some chain ∧
    verifyEntries setting chain.entries = .ok cached.verified

/-- A chain is stored, and the cached view keeps a condition. -/
structure Holding (setting : Setting Event) (keeps : Option CachedView → Prop) (chain : StoredChain) (memory : Memory)
    (disk : Disk Event) (seen : List (Seen Event)) : Prop where
  loose : Loose setting memory disk seen
  read : fullRead setting disk = some chain
  view : keeps memory.current

/-- The cached view is of this chain. -/
def ViewOf (setting : Setting Event) (chain : StoredChain) (current : Option CachedView) : Prop :=
  ∀ cached, current = some cached → verifyEntries setting chain.entries = .ok cached.verified

def Settled (setting : Setting Event) (chain : StoredChain) : Assertion Event :=
  Holding setting (ViewOf setting chain) chain

/-- The cached view is of no more than `n` entries. -/
def ViewUpTo (n : Nat) (current : Option CachedView) : Prop :=
  ∀ cached, current = some cached → cached.verified.1.headSeq ≤ n

def Writing (setting : Setting Event) (n : Nat) (chain : StoredChain) : Assertion Event :=
  Holding setting (ViewUpTo n) chain

/-- An assertion of the world as it is. -/
abbrev Assertion.At (P : Assertion Event) (w : World Event) : Prop := P w.memory w.disk w.seen

def Spec (setting : Setting Event) {A : Type} (before : Assertion Event) (task : Task Event A)
    (after : A → Assertion Event) : Prop :=
  Triple before.At task (fun value => (after value).At) (Assertion.At (Coherent setting)) (Assertion.At (AllRight setting))

theorem Settled.coherent {chain : StoredChain} {memory : Memory} {disk : Disk Event} {seen : List (Seen Event)}
    (h : Settled setting chain memory disk seen) : Coherent setting memory disk seen :=
  ⟨h.loose, fun cached hcached => ⟨chain, h.read, h.view cached hcached⟩⟩

theorem Coherent.settled {chain : StoredChain} {memory : Memory} {disk : Disk Event} {seen : List (Seen Event)}
    (h : Coherent setting memory disk seen) (hread : fullRead setting disk = some chain) :
    Settled setting chain memory disk seen := by
  refine ⟨h.loose, hread, fun cached hcached => ?_⟩
  obtain ⟨chain', hread', hview⟩ := h.view cached hcached
  rw [hread] at hread'
  cases hread'
  exact hview

theorem Settled.writing {chain : StoredChain} {memory : Memory} {disk : Disk Event} {seen : List (Seen Event)} {n : Nat}
    (h : Settled setting chain memory disk seen) (hn : chain.entries.length ≤ n) :
    Writing setting n chain memory disk seen :=
  ⟨h.loose, h.read, fun cached hcached => (verifyEntries_seq (h.view cached hcached)).1 ▸ hn⟩

theorem Loose.saw {memory : Memory} {disk : Disk Event} {seen : List (Seen Event)} {o : Seen Event}
    (h : Loose setting memory disk seen) (ho : o.Right setting) : Loose setting memory disk (seen ++ [o]) := by
  refine ⟨h.chain, h.seq, h.blank, h.inPlace, fun o' hm => ?_⟩
  rcases List.mem_append.mp hm with hm | hm
  · exact h.right o' hm
  · rw [List.mem_singleton.mp hm]
    exact ho

theorem Loose.withChain {memory : Memory} {disk : Disk Event} {seen : List (Seen Event)} {cached : Option StoredChain}
    (h : Loose setting memory disk seen)
    (hcached : ∀ chain, cached = some chain → disk.initialized = true ∧ fullRead setting disk = some chain) :
    Loose setting { memory with chain := cached } disk seen :=
  ⟨hcached, h.seq, h.blank, h.inPlace, h.right⟩

theorem Loose.withCurrent {memory : Memory} {disk : Disk Event} {seen : List (Seen Event)} (h : Loose setting memory disk seen)
    (current : Option CachedView) : Loose setting { memory with current := current } disk seen :=
  ⟨h.chain, h.seq, h.blank, h.inPlace, h.right⟩

theorem Loose.withNextSeq {memory : Memory} {disk : Disk Event} {seen : List (Seen Event)} {next : Option Nat}
    (h : Loose setting memory disk seen) (hnext : ∀ n, next = some n → n = disk.auditEvents.maxSeq + 1) :
    Loose setting { memory with nextSeqCache := next } disk seen :=
  ⟨h.chain, hnext, h.blank, h.inPlace, h.right⟩

theorem Loose.withoutNextSeq {memory : Memory} {disk : Disk Event} {seen : List (Seen Event)}
    (h : Loose setting memory disk seen) : Loose setting { memory with nextSeqCache := none } disk seen :=
  h.withNextSeq fun _ hn => by cases hn

/-! ## Chance -/

section Chance
variable {P E D : Assertion Event}

theorem toss_triple : Triple P.At toss (fun _ => P.At) E.At D.At := by
  intro w hw
  unfold toss
  cases w.coins with
  | nil => exact hw
  | cons coin rest => exact hw

theorem mayDie_triple (hD : ∀ m d s, P m d s → D m d s) : Triple P.At mayDie (fun _ => P.At) E.At D.At := by
  refine toss_triple.bind fun dies => ?_
  cases dies with
  | true => exact Triple.die fun _ hw => hD _ _ _ hw
  | false => exact Triple.done fun _ hw => hw

theorem judge_triple (hE : ∀ m d s, P m d s → E m d s) : Triple P.At judge (fun _ => P.At) E.At D.At :=
  toss_triple.bind fun _ => Triple.require (fun _ _ hw => hw) fun _ hw => hE _ _ _ hw

theorem exec_triple {write : Disk Event → Option (Disk Event)} {Q : Assertion Event} (hD : ∀ m d s, P m d s → D m d s)
    (h : ∀ m d s, P m d s → ∀ d', write d = some d' → Q m d' s) :
    Triple P.At (exec write) (fun _ => Q.At) E.At D.At := by
  refine (mayDie_triple hD).bind fun _ => ?_
  refine Triple.bind (Q := fun w w' => w'.disk = w.disk ∧ P.At w') (Triple.get fun _ hw => ⟨rfl, hw⟩) fun w => ?_
  refine Triple.bind (Q := fun d' w' => write w'.disk = some d' ∧ P.At w') ?_ fun d' =>
    Triple.modify fun _ hw => h _ _ _ hw.2 d' hw.1
  refine Triple.orDie (fun d' hd' w' hw => ⟨?_, hw.2⟩) fun w' hw => hD _ _ _ hw.2
  rw [hw.1]
  exact hd'

end Chance

/-! ## Rules -/

namespace Spec
variable {A B : Type} {before before' : Assertion Event} {task : Task Event A} {after after' : A → Assertion Event}

theorem bind {next : A → Task Event B} {after' : B → Assertion Event} (h : Spec setting before task after)
    (hnext : ∀ value, Spec setting (after value) (next value) after') : Spec setting before (task >>= next) after' :=
  Triple.bind h hnext

theorem through (mid : A → Assertion Event) {next : A → Task Event B} {after' : B → Assertion Event}
    (h : Spec setting before task mid) (hnext : ∀ value, Spec setting (mid value) (next value) after') :
    Spec setting before (task >>= next) after' :=
  h.bind hnext

theorem done {value : A} (h : ∀ m d s, before m d s → after value m d s) :
    Spec setting before (pure value : Task Event A) after :=
  Triple.done fun _ hw => h _ _ _ hw

theorem pre (h : Spec setting before task after) (hpre : ∀ m d s, before' m d s → before m d s) :
    Spec setting before' task after :=
  Triple.pre h fun _ hw => hpre _ _ _ hw

theorem post (h : Spec setting before task after) (hpost : ∀ value m d s, after value m d s → after' value m d s) :
    Spec setting before task after' :=
  Triple.post h fun value _ hw => hpost value _ _ _ hw

theorem assuming {φ : Prop} (h : φ → Spec setting before task after) :
    Spec setting (fun m d s => φ ∧ before m d s) task after :=
  Triple.assuming h

theorem knowing {φ : Prop} (hφ : ∀ m d s, before m d s → φ) (h : φ → Spec setting before task after) :
    Spec setting before task after :=
  Triple.knowing (fun _ hw => hφ _ _ _ hw) h

theorem refuse {reason : Refusal} (h : ∀ m d s, before m d s → Coherent setting m d s) :
    Spec setting before (Program.refuse reason : Task Event A) after :=
  Triple.refuse fun _ hw => h _ _ _ hw

theorem die (h : ∀ m d s, before m d s → AllRight setting m d s) :
    Spec setting before (Program.die : Task Event A) after :=
  Triple.die fun _ hw => h _ _ _ hw

theorem require {ok : Bool} {reason : Refusal} {after : Unit → Assertion Event}
    (h : ok = true → ∀ m d s, before m d s → after () m d s) (hE : ∀ m d s, before m d s → Coherent setting m d s) :
    Spec setting before (Program.require ok reason) after :=
  Triple.require (fun hok _ hw => h hok _ _ _ hw) fun _ hw => hE _ _ _ hw

theorem check {ok : Bool} {reason : Refusal} (hE : ∀ m d s, before m d s → Coherent setting m d s) :
    Spec setting before (Program.require ok reason) fun _ => before :=
  require (fun _ _ _ _ h => h) hE

theorem orDie {o : Option A} (h : ∀ value, o = some value → ∀ m d s, before m d s → after value m d s)
    (hD : ∀ m d s, before m d s → AllRight setting m d s) : Spec setting before (Program.orDie o : Task Event A) after :=
  Triple.orDie (fun value ho _ hw => h value ho _ _ _ hw) fun _ hw => hD _ _ _ hw

theorem get : Spec setting before Program.get fun w m d s => (m = w.memory ∧ d = w.disk) ∧ before m d s :=
  Triple.get fun _ hw => ⟨⟨rfl, rfl⟩, hw⟩

theorem modify {f : World Event → World Event} {after : Unit → Assertion Event}
    (h : ∀ w, before w.memory w.disk w.seen → after () (f w).memory (f w).disk (f w).seen) :
    Spec setting before (Program.modify f) after :=
  Triple.modify h

theorem onDefect {handler : World Event → World Event} (hhandler : ∀ w, AllRight setting w.memory w.disk w.seen →
    AllRight setting (handler w).memory (handler w).disk (handler w).seen) (h : Spec setting before task after) :
    Spec setting before (Program.onDefect handler task) after :=
  Triple.onDefect h hhandler

theorem mayDie (hD : ∀ m d s, before m d s → AllRight setting m d s) : Spec setting before mayDie fun _ => before :=
  mayDie_triple hD

theorem judge (hE : ∀ m d s, before m d s → Coherent setting m d s) : Spec setting before judge fun _ => before :=
  judge_triple hE

theorem exec {write : Disk Event → Option (Disk Event)} {after : Assertion Event}
    (hD : ∀ m d s, before m d s → AllRight setting m d s)
    (h : ∀ m d s, before m d s → ∀ d', write d = some d' → after m d' s) :
    Spec setting before (exec write) fun _ => after :=
  exec_triple hD h

end Spec

end Maruhi.ProjectDo
