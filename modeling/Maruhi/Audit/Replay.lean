import Maruhi.Audit.Proposals

/-!
# The mirror, entry by entry and over the whole chain

Whatever the length of the chain an entry is mapped under, its rows are the ones its evaluation calls for.
-/

open Run Text

namespace Maruhi.Audit
open Chain

section Chain
variable {crypto : Crypto} {entries : List Json} {st : ChainState} {index : ChainHistoryIndex}
  (h : verifyChainWithHistory crypto entries = .ok (st, index)) (hdistinct : HashesDistinct crypto entries entries)

/-- The indexing loop after `n` entries, with the hashes of the whole chain. -/
def loopAt (index : ChainHistoryIndex) (entries : List Json) (n : Nat) : IndexState :=
  indexEntries ((entries.take n).filterMap checkPayloadShape) index.entryHashAt

theorem loopAt_succ {n : Nat} {s s' : MutableChainState} {entry : ChainEntry} {hash : JsString}
    {applied : Option AppliedOperation} (hat : EntryAt crypto entries n s entry hash s' applied) :
    loopAt index entries (n + 1) = indexEntry index.entryHashAt (loopAt index entries n) entry := by
  obtain ⟨j, hj, hshape⟩ := hat.read
  unfold loopAt indexEntries
  rw [List.take_add_one, hj, List.filterMap_append, List.foldl_append]
  simp [hshape]

include h hdistinct

theorem indexed_at {n : Nat} (hn : n ≤ entries.length) {s : MutableChainState}
    (hs : stateAfter crypto (entries.take n) = some s) : Indexed crypto entries n s (loopAt index entries n) := by
  refine entry_induction (a := 0) (stateAfter_nil crypto)
    (P := fun n s => Indexed crypto entries n s (loopAt index entries n)) ?_ ?_ (Nat.zero_le n) hn hs
  · exact ⟨fun k q hq => (nomatch hq), fun k seen hseen => (nomatch hseen), fun k hk => (nomatch hk)⟩
  · intro n s entry hash s' applied _ _ hat ih
    rw [loopAt_succ hat]
    exact ih.step hdistinct hat (entryHashAt_eq h hat)

theorem turn_at {n : Nat} {s s' : MutableChainState} {entry : ChainEntry} {hash : JsString}
    {applied : Option AppliedOperation} (hat : EntryAt crypto entries n s entry hash s' applied) {ref : JsString}
    {seen : SeenProposal} (hseen : (loopAt index entries n).proposals.get? ref = some seen) :
    Turn s s' (loopAt index entries n) (loopAt index entries (n + 1)) n applied ref seen := by
  rw [loopAt_succ hat]
  exact (indexed_at h hdistinct hat.lt_length.le hat.before).turn hdistinct hat (entryHashAt_eq h hat) hseen

/-- What each turn with a proposal keeps holds at the end of the chain. -/
theorem fate (ref : JsString) {n : Nat} {s : MutableChainState} (hs : stateAfter crypto (entries.take n) = some s)
    (hn : n ≤ entries.length) {P : MutableChainState → IndexState → Prop} (h0 : P s (loopAt index entries n))
    (hturn : ∀ k s s' applied acc acc', n ≤ k → P s acc →
      (∀ seen, acc.proposals.get? ref = some seen → Turn s s' acc acc' k applied ref seen) → P s' acc') :
    ∃ last, stateAfter crypto entries = some last ∧ P last (loopAt index entries entries.length) := by
  obtain ⟨last, hlast, -⟩ := stateAfter_of_verifyChain (verifyChain_of_withHistory h)
  refine ⟨last, hlast, ?_⟩
  refine entry_induction hs (P := fun n s => P s (loopAt index entries n)) h0 ?_ hn le_rfl (by rwa [List.take_length])
  intro k s entry hash s' applied hk _ hat ih
  exact hturn k s s' applied _ _ hk ih fun seen hseen => turn_at h hdistinct hat hseen

omit hdistinct in
theorem get?_proposalIndexOf {last : MutableChainState} (hlast : stateAfter crypto entries = some last) (ref : JsString) :
    (proposalIndexOf (entries.filterMap checkPayloadShape) (st, index)).get? ref =
      ((loopAt index entries entries.length).proposals.get? ref).map fun seen =>
        { entry := seen.entry
          completedAtSeq := if last.pendingProposals.get? ref = none ∧
              (loopAt index entries entries.length).withdrawn.get? ref = none then seen.lastApproveSeq else none } := by
  obtain ⟨last', hlast', -, -, -, -, hpending⟩ := stateAfter_of_verifyChain (verifyChain_of_withHistory h)
  rw [hlast, Option.some.injEq] at hlast'
  subst hlast'
  have hkeys : (OrderedMap.setOf last.pendingProposals.keys).has ref = (last.pendingProposals.get? ref).isSome := by
    rw [Bool.eq_iff_iff, OrderedMap.has_iff, ← OrderedMap.mem_keys, OrderedMap.mem_keys_setOf, OrderedMap.mem_keys,
      Option.isSome_iff_exists]
  unfold proposalIndexOf loopAt
  rw [get?_indexProposals, hpending, hkeys, List.take_length]
  refine congrArg (fun f => Option.map f _) (funext fun seen => ?_)
  unfold OrderedMap.has
  cases last.pendingProposals.get? ref <;> cases (indexEntries (entries.filterMap checkPayloadShape)
    index.entryHashAt).withdrawn.get? ref <;> rfl

omit h hdistinct in
theorem pending_of_approve {n : Nat} {s s' : MutableChainState} {entry : ChainEntry} {hash : JsString}
    {applied : Option AppliedOperation} (hat : EntryAt crypto entries n s entry hash s' applied) {ref : JsString}
    (hop : entry.operation = .approve ref) : ∃ q, s.pendingProposals.get? ref = some q ∧
      (s'.pendingProposals.get? ref = none ↔ applied.isSome = true) := by
  have ht := hat.transition
  cases ht with
  | genesis p hop' => rw [hop] at hop'; cases hop'
  | direct op m d hop' => rw [hop] at hop'; cases hop'
  | proposed p m d hop' => rw [hop] at hop'; cases hop'
  | withdrawn ref' q m d hop' => rw [hop] at hop'; cases hop'
  | voted ref' q m d hop' hactor howner hq =>
    rw [hop] at hop'
    cases hop'
    exact ⟨q, hq, by simp [withPending]⟩
  | completed ref' q policy m d proposer device hop' hactor howner hq =>
    rw [hop] at hop'
    cases hop'
    exact ⟨q, hq, by simp [withPending, hat.keyed.pending ref q hq]⟩

theorem index_of_approve {n : Nat} {s s' : MutableChainState} {entry : ChainEntry} {hash : JsString}
    {applied : Option AppliedOperation} (hat : EntryAt crypto entries n s entry hash s' applied) {ref : JsString}
    (hop : entry.operation = .approve ref) : ∃ q proposal, s.pendingProposals.get? ref = some q ∧
      (proposalIndexOf (entries.filterMap checkPayloadShape) (st, index)).get? ref = some proposal ∧
      Names proposal.entry q ∧ (proposal.completedAtSeq = some entry.seq ↔ applied.isSome = true) := by
  obtain ⟨q, hq, hclosed⟩ := pending_of_approve hat hop
  obtain ⟨hnot, seen, hseen, hnames⟩ := (indexed_at h hdistinct hat.lt_length.le hat.before).pending ref q hq
  have hnext : (loopAt index entries (n + 1)).proposals.get? ref = some { seen with lastApproveSeq := some (n + 1) } := by
    rw [loopAt_succ hat, indexEntry_approve hop hseen, hat.seq_eq]
    exact OrderedMap.get?_set_self _ _ _
  have hnot' : (loopAt index entries (n + 1)).withdrawn.get? ref = none := by
    rw [loopAt_succ hat, indexEntry_approve hop hseen]
    exact hnot
  have hn : n + 1 ≤ entries.length := hat.lt_length
  refine ⟨q, ?_⟩
  rw [hat.seq_eq]
  cases happlied : applied.isSome with
  | true =>
    obtain ⟨last, hlast, hfate⟩ := fate h hdistinct ref hat.after hn
      (P := CompletedAt seen.entry ref (n + 1)) ⟨hclosed.mpr happlied, hnot', _, hnext, rfl, rfl⟩
      fun k s s' applied acc acc' _ hP hturn => hP.turn hturn
    obtain ⟨seen', hseen', hentry, hlast'⟩ := hfate.seen
    have hindex := get?_proposalIndexOf h hlast ref
    rw [hseen', Option.map_some] at hindex
    refine ⟨_, hq, hindex, ?_, ?_⟩
    · rw [hentry]
      exact hnames
    · rw [if_pos ⟨hfate.pending, hfate.withdrawn⟩, hlast']
      simp
  | false =>
    have hpending : s'.pendingProposals.get? ref ≠ none := fun hnone => by simp [hclosed.mp hnone] at happlied
    obtain ⟨last, hlast, hfate⟩ := fate h hdistinct ref hat.after hn
      (P := OpenAt seen.entry ref (n + 1)) ⟨_, hnext, rfl, Or.inl hpending⟩
      fun k s s' applied acc acc' hk hP hturn => hP.turn hk hturn
    obtain ⟨seen', hseen', hentry, hopen⟩ := hfate.seen
    have hindex := get?_proposalIndexOf h hlast ref
    rw [hseen', Option.map_some] at hindex
    refine ⟨_, hq, hindex, ?_, ?_⟩
    · rw [hentry]
      exact hnames
    · simp only [Bool.false_eq_true, iff_false]
      intro hcompleted
      split_ifs at hcompleted with hend
      rcases hopen with hopen | hopen | ⟨m', hm', hlater⟩
      · exact hopen hend.1
      · exact hopen hend.2
      · rw [hlater, Option.some.injEq] at hcompleted
        omega

theorem index_of_withdraw {n : Nat} {s s' : MutableChainState} {entry : ChainEntry} {hash : JsString}
    {applied : Option AppliedOperation} (hat : EntryAt crypto entries n s entry hash s' applied) {ref : JsString}
    {q : PendingProposal} (hq : s.pendingProposals.get? ref = some q) :
    ∃ proposal, (proposalIndexOf (entries.filterMap checkPayloadShape) (st, index)).get? ref = some proposal ∧
      Names proposal.entry q := by
  obtain ⟨-, seen, hseen, hnames⟩ := (indexed_at h hdistinct hat.lt_length.le hat.before).pending ref q hq
  obtain ⟨last, hlast, hfate⟩ := fate h hdistinct ref hat.before hat.lt_length.le
    (P := OpenAt seen.entry ref 0) ⟨seen, hseen, rfl, Or.inl (by rw [hq]; exact Option.some_ne_none q)⟩
    fun k s s' applied acc acc' _ hP hturn => hP.turn (Nat.zero_le k) hturn
  obtain ⟨seen', hseen', hentry, -⟩ := hfate.seen
  have hindex := get?_proposalIndexOf h hlast ref
  rw [hseen', Option.map_some] at hindex
  refine ⟨_, hindex, ?_⟩
  rw [hentry]
  exact hnames

end Chain

/-! ## The rows of one entry -/

def addedFingerprint (crypto : Crypto) : ProposableOperation → Option KeyFingerprintHex
  | .addDevice p => some (userFingerprintHex crypto p.encPubHex p.sigPubHex)
  | _ => none

def proposerOf (q : PendingProposal) : ChainActor where
  userId := q.proposerUserId
  keyFingerprintHex := q.proposerKeyFingerprintHex

def approvedTail (proposalChainSeq : Nat) (completed : Bool) : MirrorTail where
  event := .chainApproved
  payload := some (.object [("proposalChainSeq", .ofNat proposalChainSeq), ("completed", .bool completed)])

def withdrawnTail (proposalChainSeq : Nat) : MirrorTail where
  event := .chainProposalWithdrawn
  payload := some (.object [("proposalChainSeq", .ofNat proposalChainSeq)])

def proposedTail (p : ProposePayload) : MirrorTail where
  event := .chainProposed
  payload := some (.object [("innerOp", .str (proposableOpName p.inner)), ("expiresAtMs", .ofNat p.expiresAtMs)])

/-- The rows that the evaluation of an entry in the state `s` calls for. -/
inductive Mirrored (crypto : Crypto) (ts : Nat) (s : MutableChainState) (entry : ChainEntry) :
    Option AppliedOperation → List AuditEventRecord → Prop
  | direct (op : ProposableOperation) (tail : MirrorTail) (hop : entry.operation = .direct op)
      (htail : proposableTailOf op
        { actor := entry.actor, addedDeviceKeyFingerprintHex := addedFingerprint crypto op } = .ok tail) :
      Mirrored crypto ts s entry (some { operation := op, actorUserId := entry.actor.userId })
        [mirrorRowOf entry ts entry.actor tail]
  | proposed (p : ProposePayload) (hop : entry.operation = .propose p) :
      Mirrored crypto ts s entry none [mirrorRowOf entry ts entry.actor (proposedTail p)]
  | voted (ref : JsString) (q : PendingProposal) (hop : entry.operation = .approve ref)
      (hq : s.pendingProposals.get? ref = some q) :
      Mirrored crypto ts s entry none [mirrorRowOf entry ts entry.actor (approvedTail q.proposalSeq false)]
  | completed (ref : JsString) (q : PendingProposal) (tail : MirrorTail) (hop : entry.operation = .approve ref)
      (hq : s.pendingProposals.get? ref = some q)
      (htail : proposableTailOf q.inner { actor := proposerOf q, viaProposalSeq := some q.proposalSeq } = .ok tail) :
      Mirrored crypto ts s entry (some { operation := q.inner, actorUserId := q.proposerUserId })
        [mirrorRowOf entry ts entry.actor (approvedTail q.proposalSeq true), mirrorRowOf entry ts (proposerOf q) tail]
  | withdrawn (ref : JsString) (q : PendingProposal) (hop : entry.operation = .withdraw ref)
      (hq : s.pendingProposals.get? ref = some q) :
      Mirrored crypto ts s entry none [mirrorRowOf entry ts entry.actor (withdrawnTail q.proposalSeq)]

theorem isApprovalTarget_addDevice (p : AddDevicePayload) (policy : Option ApprovalPolicy) :
    isApprovalTarget (.addDevice p) policy = false := by
  cases policy <;> rfl

theorem exists_tail (op : ProposableOperation) (subject : MirrorSubject)
    (h : ∀ p, op = .addDevice p → ∃ fp, subject.addedDeviceKeyFingerprintHex = some fp) :
    ∃ tail, proposableTailOf op subject = .ok tail := by
  cases op with
  | addDevice p =>
    obtain ⟨fp, hfp⟩ := h p rfl
    unfold proposableTailOf
    rw [hfp]
    exact ⟨_, rfl⟩
  | _ => exact ⟨_, rfl⟩

section Rows
variable {crypto : Crypto} {entries : List Json} {n : Nat} {s s' : MutableChainState} {entry : ChainEntry} {hash : JsString}
  {applied : Option AppliedOperation}

theorem exists_mirrored (ts : Nat) (hat : EntryAt crypto entries n s entry hash s' applied) :
    ∃ rows, Mirrored crypto ts s entry applied rows := by
  have ht := hat.transition
  have hdirect : ∀ op, ∃ tail, proposableTailOf op
      { actor := entry.actor, addedDeviceKeyFingerprintHex := addedFingerprint crypto op } = .ok tail := by
    intro op
    refine exists_tail _ _ ?_
    rintro p rfl
    exact ⟨_, rfl⟩
  cases ht with
  | genesis p hop =>
    obtain ⟨tail, htail⟩ := hdirect (.genesis p)
    exact ⟨_, .direct _ tail hop htail⟩
  | direct op m d hop hgenesis auth htarget =>
    obtain ⟨tail, htail⟩ := hdirect op
    rw [(actor_eq hat auth.device).1]
    exact ⟨_, .direct op tail hop htail⟩
  | proposed p m d hop => exact ⟨_, .proposed p hop⟩
  | voted ref q m d hop hactor howner hq => exact ⟨_, .voted ref q hop hq⟩
  | completed ref q policy m d proposer device hop hactor howner hq hvote hpolicy hquorum auth =>
    have htarget := (approveVoteReason_eq_none hvote).2.1
    obtain ⟨tail, htail⟩ := exists_tail q.inner
      { actor := proposerOf q, viaProposalSeq := some q.proposalSeq } fun p hp => by
        rw [hp, isApprovalTarget_addDevice] at htarget
        cases htarget
    have huser : proposer.userId = q.proposerUserId := hat.keyed.member _ _ (deviceOf_eq_some.mp auth.device).1
    rw [huser]
    exact ⟨_, .completed ref q tail hop hq htail⟩
  | withdrawn ref q m d hop hactor hq => exact ⟨_, .withdrawn ref q hop hq⟩

theorem mirrorSubjectOf_addDevice (hat : EntryAt crypto entries n s entry hash s' applied) {p : AddDevicePayload}
    (hop : entry.operation = .direct (.addDevice p)) :
    mirrorSubjectOf crypto entry = .ok (some (userFingerprintHex crypto p.encPubHex p.sigPubHex)) := by
  obtain ⟨j, -, hshape⟩ := hat.read
  have hshaped := (checkPayloadShape_shaped hshape).operation
  rw [hop] at hshaped
  obtain ⟨⟨henc, hsig⟩, -⟩ := hshaped
  have hdecodes : ∀ {bytes : Nat} {text : JsString}, isHexText bytes text = true → ∃ decoded, decodeHex text = some decoded := by
    intro bytes text htext
    unfold isHexText at htext
    cases hd : decodeHex text with
    | none => simp [hd] at htext
    | some decoded => exact ⟨decoded, rfl⟩
  obtain ⟨_, henc⟩ := hdecodes henc
  obtain ⟨_, hsig⟩ := hdecodes hsig
  unfold mirrorSubjectOf
  rw [hop]
  dsimp only
  rw [henc, hsig]

/-- Under the index of any chain it stands on, an entry is mapped to the rows its evaluation calls for. -/
theorem mirrorRows_of_mirrored {st : ChainState} {index : ChainHistoryIndex}
    (h : verifyChainWithHistory crypto entries = .ok (st, index)) (hdistinct : HashesDistinct crypto entries entries)
    (hat : EntryAt crypto entries n s entry hash s' applied) {ts : Nat} {rows : List AuditEventRecord}
    (hrows : Mirrored crypto ts s entry applied rows) :
    mirrorRows crypto entry ts (proposalIndexOf (entries.filterMap checkPayloadShape) (st, index)) = .ok rows := by
  cases hrows with
  | direct op tail hop htail =>
    cases op with
    | addDevice p =>
      unfold mirrorRows
      rw [mirrorSubjectOf_addDevice hat hop]
      simp only [chainMirrorEvents, hop, mirrorTailOf, bind, Except.bind]
      rw [show some (userFingerprintHex crypto p.encPubHex p.sigPubHex) = addedFingerprint crypto (.addDevice p) from rfl,
        htail]
      rfl
    | _ =>
      simp only [mirrorRows, mirrorSubjectOf, chainMirrorEvents, hop, mirrorTailOf, bind, Except.bind]
      rw [addedFingerprint] at htail
      · rw [htail]
        rfl
      · rintro p ⟨⟩
  | proposed p hop => simp [mirrorRows, mirrorSubjectOf, chainMirrorEvents, hop, mirrorTailOf, bind, Except.bind, pure,
      Except.pure, proposedTail]
  | voted ref q hop hq =>
    obtain ⟨q', proposal, hq', hproposal, hnames, hcompleted⟩ := index_of_approve h hdistinct hat hop
    rw [hq, Option.some.injEq] at hq'
    subst hq'
    have hnot : proposal.completedAtSeq ≠ some entry.seq := fun heq => by simpa using hcompleted.mp heq
    simp only [mirrorRows, mirrorSubjectOf, hop, bind, Except.bind, chainMirrorEvents, referencedProposal, hproposal,
      Option.elim_some, mirrorTailOf, referencedOf, Except.map, hnot, hnames.seq]
    rfl
  | completed ref q tail hop hq htail =>
    obtain ⟨q', proposal, hq', hproposal, hnames, hcompleted⟩ := index_of_approve h hdistinct hat hop
    rw [hq, Option.some.injEq] at hq'
    subst hq'
    have hdone : proposal.completedAtSeq = some entry.seq := hcompleted.mpr rfl
    have hactor : proposal.entry.entry.actor = proposerOf q := hnames.actor
    simp only [mirrorRows, mirrorSubjectOf, hop, bind, Except.bind, chainMirrorEvents, referencedProposal, hproposal,
      Option.elim_some, mirrorTailOf, referencedOf, Except.map, hdone, hnames.seq, hnames.inner, hactor, htail]
    rfl
  | withdrawn ref q hop hq =>
    obtain ⟨proposal, hproposal, hnames⟩ := index_of_withdraw h hdistinct hat hq
    simp only [mirrorRows, mirrorSubjectOf, hop, bind, Except.bind, chainMirrorEvents, referencedProposal, hproposal,
      Option.elim_some, mirrorTailOf, referencedOf, Except.map, hnames.seq]
    rfl

end Rows

/-! ## The operations the chain applied -/

/-- What `verifyChain` applied at position `n`. -/
def appliedAt (crypto : Crypto) (entries : List Json) (n : Nat) : Option AppliedOperation := do
  let s ← stateAfter crypto (entries.take n)
  let entry ← entries[n]?.bind checkPayloadShape
  let hash ← computeChainEntryHash crypto entry
  match evaluateEntry crypto entry hash s with
  | .ok (_, applied) => applied
  | .error _ => none

/-- The applied operations of a list, each with the seq it took effect at. -/
def appliedOperations (crypto : Crypto) (entries : List Json) : List (Nat × AppliedOperation) :=
  (List.range entries.length).flatMap fun n => (appliedAt crypto entries n).toList.map fun applied => (n + 1, applied)

theorem appliedAt_eq {crypto : Crypto} {entries : List Json} {n : Nat} {s s' : MutableChainState} {entry : ChainEntry}
    {hash : JsString} {applied : Option AppliedOperation} (hat : EntryAt crypto entries n s entry hash s' applied) :
    appliedAt crypto entries n = applied := by
  obtain ⟨j, hj, hshape⟩ := hat.read
  unfold appliedAt
  simp [hat.before, hj, hshape, hat.hash_eq, hat.evaluated]

/-- Rows that mirror no applied operation. -/
def isApprovalEvent : AuditEventName → Bool
  | .chainProposed => true
  | .chainApproved => true
  | .chainProposalWithdrawn => true
  | _ => false

/-- A row is the mirror of an operation applied at a seq. -/
def MirrorsOperation (applied : Nat × AppliedOperation) (row : AuditEventRecord) : Prop :=
  ∃ entry ts subject tail, entry.seq = applied.1 ∧ subject.actor.userId = applied.2.actorUserId ∧
    proposableTailOf applied.2.operation subject = .ok tail ∧ row = mirrorRowOf entry ts subject.actor tail

theorem isApprovalEvent_tail {op : ProposableOperation} {subject : MirrorSubject} {tail : MirrorTail}
    (h : proposableTailOf op subject = .ok tail) : isApprovalEvent tail.event = false := by
  cases op with
  | addDevice p =>
    simp only [proposableTailOf] at h
    split at h <;> cases h
    rfl
  | _ => cases h; rfl

theorem Mirrored.operations {crypto : Crypto} {ts : Nat} {s : MutableChainState} {entry : ChainEntry}
    {applied : Option AppliedOperation} {rows : List AuditEventRecord} (h : Mirrored crypto ts s entry applied rows) :
    List.Forall₂ MirrorsOperation (applied.toList.map fun a => (entry.seq, a))
      (rows.filter fun row => !isApprovalEvent row.event) := by
  cases h with
  | direct op tail hop htail =>
    have hevent := isApprovalEvent_tail htail
    simp only [List.filter_cons, mirrorRowOf, hevent]
    exact List.Forall₂.cons ⟨entry, ts, _, tail, rfl, rfl, htail, rfl⟩ List.Forall₂.nil
  | completed ref q tail hop hq htail =>
    have hevent := isApprovalEvent_tail htail
    simp only [List.filter_cons, mirrorRowOf, hevent]
    exact List.Forall₂.cons ⟨entry, ts, _, tail, rfl, rfl, htail, rfl⟩ List.Forall₂.nil
  | proposed p hop => exact List.Forall₂.nil
  | voted ref q hop hq => exact List.Forall₂.nil
  | withdrawn ref q hop hq => exact List.Forall₂.nil

/-! ## The whole mirror -/

section Whole
variable {crypto : Crypto} {serverTs : Nat → Nat} {entries : List Json} {st : ChainState} {index : ChainHistoryIndex}
  (h : verifyChainWithHistory crypto entries = .ok (st, index)) (hdistinct : HashesDistinct crypto entries entries)
  {rows : Nat → List AuditEventRecord}
  (hrows : ∀ n s entry hash s' applied, EntryAt crypto entries n s entry hash s' applied →
    Mirrored crypto (serverTs (n + 1)) s entry applied (rows n))

include h hdistinct hrows

theorem writeMirror_take {n : Nat} (hn : n ≤ entries.length) :
    writeMirror crypto serverTs (entries.take n) = .ok ⟨entries.take n, (List.range n).flatMap rows⟩ := by
  induction n with
  | zero => rfl
  | succ n ih =>
    obtain ⟨s, entry, hash, s', applied, hat⟩ := entryAt_of_verifyChain (verifyChain_of_withHistory h) hn
    obtain ⟨j, hj, hshape⟩ := hat.read
    obtain ⟨st', index', hpre⟩ := verifyChainWithHistory_take h (Nat.succ_pos n)
    have htake : entries.take (n + 1) = entries.take n ++ [j] := by
      rw [List.take_add_one, hj]
      rfl
    have hmirrored := hrows n s entry hash s' applied hat
    have hdistinct' : HashesDistinct crypto (entries.take (n + 1)) (entries.take (n + 1)) := by
      have hsub : ∀ e ∈ readEntries (entries.take (n + 1)), e ∈ readEntries entries :=
        ((List.take_sublist _ _).filterMap _).subset
      exact fun e he e' he' => hdistinct e (hsub e he) e' (hsub e' he')
    have hrow := mirrorRows_of_mirrored hpre hdistinct' (entryAt_take (Nat.lt_succ_self n) hat) hmirrored
    unfold writeMirror at ih ⊢
    rw [htake] at hpre hrow
    rw [htake, List.foldlM_append, ih (by omega), List.range_succ, List.flatMap_append]
    simp only [bind, Except.bind, List.foldlM_cons, List.foldlM_nil, pure, Except.pure, commitAcceptedEntry, hpre, hshape,
      hat.seq_eq, hrow, List.flatMap_cons, List.flatMap_nil, List.append_nil]

theorem mirrorOfChain_eq :
    mirrorOfChain crypto serverTs entries (st, index) = .ok ((List.range entries.length).flatMap rows) := by
  have hmap : ∀ n ≤ entries.length, ((entries.take n).filterMap checkPayloadShape).mapM (fun entry =>
      mirrorRows crypto entry (serverTs entry.seq) (proposalIndexOf (entries.filterMap checkPayloadShape) (st, index))) =
        .ok ((List.range n).map rows) := by
    intro n hn
    induction n with
    | zero => rfl
    | succ n ih =>
      obtain ⟨s, entry, hash, s', applied, hat⟩ := entryAt_of_verifyChain (verifyChain_of_withHistory h) hn
      obtain ⟨j, hj, hshape⟩ := hat.read
      have hrow := mirrorRows_of_mirrored h hdistinct hat (hrows n s entry hash s' applied hat)
      rw [List.take_add_one, hj, List.filterMap_append, List.mapM_append, ih (by omega), List.range_succ, List.map_append]
      simp [hshape, bind, Except.bind, hat.seq_eq, hrow, pure, Except.pure]
  have hall := hmap entries.length le_rfl
  rw [List.take_length] at hall
  unfold mirrorOfChain
  dsimp only
  rw [hall]
  rfl

omit h hdistinct in
theorem operations_mirrored (hchain : ∀ n < entries.length, ∃ s entry hash s' applied,
    EntryAt crypto entries n s entry hash s' applied) : List.Forall₂ MirrorsOperation (appliedOperations crypto entries)
      (((List.range entries.length).flatMap rows).filter fun row => !isApprovalEvent row.event) := by
  unfold appliedOperations
  rw [List.filter_flatMap]
  have hrange : List.Forall₂ (fun a b => a = b ∧ a < entries.length) (List.range entries.length)
      (List.range entries.length) := by
    rw [List.forall₂_same]
    exact fun n hn => ⟨rfl, List.mem_range.mp hn⟩
  refine List.rel_flatMap hrange ?_
  rintro n m ⟨rfl, hn⟩
  obtain ⟨s, entry, hash, s', applied, hat⟩ := hchain n hn
  dsimp only
  rw [appliedAt_eq hat, ← hat.seq_eq]
  exact (hrows n s entry hash s' applied hat).operations

end Whole

/-- The rows written entry by entry are the rows of the whole chain. Those of each entry are the ones its evaluation
calls for, an approve is completed exactly when it applied its proposal, and the rows of operations are, in order, the
operations the chain applied. -/
theorem mirror_incremental (crypto : Crypto) (serverTs : Nat → Nat) (entries : List Json) (st : ChainState)
    (index : ChainHistoryIndex) (h : verifyChainWithHistory crypto entries = .ok (st, index))
    (hdistinct : HashesDistinct crypto entries entries) :
    ∃ rows : Nat → List AuditEventRecord,
      writeMirror crypto serverTs entries = .ok ⟨entries, (List.range entries.length).flatMap rows⟩ ∧
      mirrorOfChain crypto serverTs entries (st, index) = .ok ((List.range entries.length).flatMap rows) ∧
      (∀ n < entries.length, ∃ s entry hash s' applied, EntryAt crypto entries n s entry hash s' applied ∧
        Mirrored crypto (serverTs (n + 1)) s entry applied (rows n)) ∧
      List.Forall₂ MirrorsOperation (appliedOperations crypto entries)
        (((List.range entries.length).flatMap rows).filter fun row => !isApprovalEvent row.event) := by
  have hchain := fun n hn => entryAt_of_verifyChain (verifyChain_of_withHistory h) (n := n) hn
  have hexists : ∀ n, ∃ rows, ∀ s entry hash s' applied, EntryAt crypto entries n s entry hash s' applied →
      Mirrored crypto (serverTs (n + 1)) s entry applied rows := by
    intro n
    by_cases hn : n < entries.length
    · obtain ⟨s, entry, hash, s', applied, hat⟩ := hchain n hn
      obtain ⟨rows, hrows⟩ := exists_mirrored (serverTs (n + 1)) hat
      refine ⟨rows, fun s₁ entry₁ hash₁ s₁' applied₁ hat₁ => ?_⟩
      obtain ⟨rfl, rfl, rfl, rfl, rfl⟩ := entryAt_unique hat hat₁
      exact hrows
    · exact ⟨[], fun s entry hash s' applied hat => absurd hat.lt_length hn⟩
  choose rows hrows using hexists
  refine ⟨rows, ?_, mirrorOfChain_eq h hdistinct hrows, fun n hn => ?_, operations_mirrored hrows hchain⟩
  · have hwrite := writeMirror_take h hdistinct hrows le_rfl
    rwa [List.take_length] at hwrite
  · obtain ⟨s, entry, hash, s', applied, hat⟩ := hchain n hn
    exact ⟨s, entry, hash, s', applied, hat, hrows n s entry hash s' applied hat⟩

theorem hashesDistinct_of_nodup {crypto : Crypto} {entries : List Json}
    (h : ((readEntries entries).map (computeChainEntryHash crypto)).Nodup) : HashesDistinct crypto entries entries := by
  intro e he e' he' b b' hb hb' hsum
  have hhash : computeChainEntryHash crypto e = computeChainEntryHash crypto e' := by
    unfold computeChainEntryHash
    rw [hb, hb', Option.map_some, Option.map_some, hsum]
  rw [List.inj_on_of_nodup_map h he he' hhash, hb', Option.some.injEq] at hb
  exact hb.symm

set_option maxRecDepth 100000 in
theorem exampleChain_hashes : ((readEntries exampleChain).map (computeChainEntryHash exampleCrypto)).Nodup := by
  rw [exampleCrypto_eq exampleDigests]
  decide +kernel

/-- A proposal, its approval, and the row of the grant it applied. -/
theorem mirror_incremental_example : ∃ rows : Nat → List AuditEventRecord,
    writeMirror exampleCrypto (fun _ => 0) exampleChain = .ok ⟨exampleChain, (List.range 8).flatMap rows⟩ ∧
      List.Forall₂ MirrorsOperation (appliedOperations exampleCrypto exampleChain)
        (((List.range 8).flatMap rows).filter fun row => !isApprovalEvent row.event) := by
  obtain ⟨st, index, h⟩ := exampleChain_accepted
  obtain ⟨rows, hwrite, -, -, hoperations⟩ :=
    mirror_incremental exampleCrypto (fun _ => 0) exampleChain st index h (hashesDistinct_of_nodup exampleChain_hashes)
  exact ⟨rows, hwrite, hoperations⟩

end Maruhi.Audit
