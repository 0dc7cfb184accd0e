import Maruhi.Audit.Mirror
import Maruhi.Chain.Agreement
import Maruhi.Chain.Commitment
import Maruhi.Chain.Quorum

/-!
# The proposal index against the pending proposals

The index names the propose entry behind every proposal, and the approve at which the chain completed it.
-/

open Run

namespace Maruhi.Audit
open Chain

/-! ## Hashes -/

theorem position_of_hash {crypto : Crypto} {entries : List Json} (hdistinct : HashesDistinct crypto entries entries)
    {n n' : Nat} {s t s' t' : MutableChainState} {entry entry' : ChainEntry} {hash : JsString}
    {applied applied' : Option AppliedOperation} (h : EntryAt crypto entries n s entry hash s' applied)
    (h' : EntryAt crypto entries n' t entry' hash t' applied') : n = n' := by
  obtain ⟨j, hj, hshape⟩ := h.read
  obtain ⟨j', hj', hshape'⟩ := h'.read
  obtain ⟨bytes, hbytes, hsum⟩ := Option.map_eq_some_iff.mp h.hash_eq
  obtain ⟨bytes', hbytes', hsum'⟩ := Option.map_eq_some_iff.mp h'.hash_eq
  have hread : entry ∈ readEntries entries := List.mem_filterMap.mpr ⟨j, List.mem_of_getElem? hj, hshape⟩
  have hread' : entry' ∈ readEntries entries := List.mem_filterMap.mpr ⟨j', List.mem_of_getElem? hj', hshape'⟩
  obtain rfl := hdistinct entry hread entry' hread' bytes bytes' hbytes hbytes' (Text.encodeHex_inj (hsum.trans hsum'.symm))
  have hseq := (canonicalEntry_alike (checkPayloadShape_shaped hshape) hbytes hbytes').1.seq
  rw [h.seq_eq, h'.seq_eq] at hseq
  omega

theorem entryAt_take {crypto : Crypto} {entries : List Json} {n m : Nat} (hm : n < m) {s s' : MutableChainState}
    {entry : ChainEntry} {hash : JsString} {applied : Option AppliedOperation}
    (h : EntryAt crypto entries n s entry hash s' applied) : EntryAt crypto (entries.take m) n s entry hash s' applied := by
  obtain ⟨j, hj, hshape⟩ := h.read
  refine ⟨?_, ⟨j, ?_, hshape⟩, h.seq_eq, h.hash_eq, h.evaluated, ?_, h.signed⟩
  · rw [List.take_take, Nat.min_eq_left hm.le]
    exact h.before
  · rw [List.getElem?_take_of_lt hm, hj]
  · rw [List.take_take, Nat.min_eq_left hm]
    exact h.after

theorem verifyChainWithHistory_ok {crypto : Crypto} {entries : List Json} {st : ChainState} {index : ChainHistoryIndex} :
    verifyChainWithHistory crypto entries = .ok (st, index) ↔ entries ≠ [] ∧ ∃ loop,
      Runs crypto (some .new) entries loop ∧ st = sealChainState loop.state entries.length loop.prevHash ∧
        index = (loop.history.getD .new).build := by
  unfold verifyChainWithHistory verifyChainCore Runs Reaches
  cases entries with
  | nil => simp
  | cons j rest =>
    rw [List.isEmpty_cons, if_neg Bool.false_ne_true]
    cases (j :: rest).foldlM (verifyEntry crypto) (.initial (some .new)) with
    | error e => simp [bind, Except.bind]
    | ok loop => simp [bind, Except.bind, pure, Except.pure, eq_comm]

theorem verifyChainWithHistory_take {crypto : Crypto} {entries : List Json} {st : ChainState} {index : ChainHistoryIndex}
    (h : verifyChainWithHistory crypto entries = .ok (st, index)) {n : Nat} (hn : 0 < n) :
    ∃ st' index', verifyChainWithHistory crypto (entries.take n) = .ok (st', index') := by
  obtain ⟨hne, loop, hrun, -, -⟩ := verifyChainWithHistory_ok.mp h
  obtain ⟨mid, hmid, -⟩ := reaches_take hrun n
  refine ⟨_, _, verifyChainWithHistory_ok.mpr ⟨?_, mid, hmid, rfl, rfl⟩⟩
  rw [Ne, List.take_eq_nil_iff, not_or]
  exact ⟨by omega, hne⟩

theorem entryHashes_of_runs {crypto : Crypto} {entries : List Json} {loop : LoopState}
    (hrun : Runs crypto (some .new) entries loop) : ∃ history, loop.history = some history ∧
      history.entryHashes.length = entries.length ∧
      ∀ n s entry hash s' applied, EntryAt crypto entries n s entry hash s' applied →
        history.entryHashes[n]? = some hash := by
  refine reaches_induction hrun (P := fun pre loop => ∃ history, loop.history = some history ∧
      history.entryHashes.length = pre.length ∧
      ∀ n s entry hash s' applied, EntryAt crypto pre n s entry hash s' applied →
        history.entryHashes[n]? = some hash) ?_ ?_
  · refine ⟨.new, rfl, rfl, fun n s entry hash s' applied h => ?_⟩
    obtain ⟨j, hj, -⟩ := h.read
    cases hj
  · rintro pre j mid mid' hpre hreach ⟨history, hhistory, hlength, hhashes⟩ hstep
    obtain ⟨entry, hash, applied, hacc⟩ := verifyEntry_ok hstep
    refine ⟨(historyAfter history applied (mid.seq + 1) mid'.state).recordEntryHash hash, ?_, ?_, ?_⟩
    · rw [hacc.history_eq, hhistory]
      rfl
    · rw [ChainHistoryBuilder.recordEntryHash, entryHashes_historyAfter, List.length_append, List.length_append, hlength]
      rfl
    · intro n s entry' hash' s' applied' hat
      rw [ChainHistoryBuilder.recordEntryHash, entryHashes_historyAfter]
      have hlt := hat.lt_length
      rw [List.length_append, List.length_singleton] at hlt
      rcases Nat.lt_succ_iff_lt_or_eq.mp hlt with hn | rfl
      · have hbefore := entryAt_take hn hat
        rw [List.take_left] at hbefore
        rw [List.getElem?_append_left (by omega)]
        exact hhashes n s entry' hash' s' applied' hbefore
      · obtain ⟨j', hj', hshape⟩ := hat.read
        rw [List.getElem?_concat_length, Option.some.injEq] at hj'
        subst hj'
        have hentry := Option.some.inj (hshape.symm.trans hacc.shape)
        subst hentry
        rw [← hlength, List.getElem?_concat_length, ← hacc.hash_eq, hat.hash_eq]

theorem entryHashAt_eq {crypto : Crypto} {entries : List Json} {st : ChainState} {index : ChainHistoryIndex}
    (h : verifyChainWithHistory crypto entries = .ok (st, index)) {n : Nat} {s s' : MutableChainState}
    {entry : ChainEntry} {hash : JsString} {applied : Option AppliedOperation}
    (hat : EntryAt crypto entries n s entry hash s' applied) : index.entryHashAt entry.seq = some hash := by
  obtain ⟨-, loop, hrun, -, rfl⟩ := verifyChainWithHistory_ok.mp h
  obtain ⟨history, hhistory, hlength, hhashes⟩ := entryHashes_of_runs hrun
  have hlt := hat.lt_length
  have hsafe := hat.seq_le
  rw [hhistory, Option.getD_some, hat.seq_eq, ChainHistoryIndex.entryHashAt, if_pos, Nat.add_sub_cancel]
  · exact hhashes n s entry hash s' applied hat
  · simp only [ChainHistoryIndex.inRange, ChainHistoryIndex.headSeq, ChainHistoryBuilder.build, hlength,
      Bool.and_eq_true, decide_eq_true_eq]
    omega

/-! ## The loop over the entries -/

/-- The propose entry behind a pending proposal. -/
structure Names (proposed : ProposeEntry) (q : PendingProposal) : Prop where
  seq : proposed.entry.seq = q.proposalSeq
  inner : proposed.payload.inner = q.inner
  actor : proposed.entry.actor = { userId := q.proposerUserId, keyFingerprintHex := q.proposerKeyFingerprintHex }

/-- What the loop knows after the first `n` entries. -/
structure Indexed (crypto : Crypto) (entries : List Json) (n : Nat) (s : MutableChainState) (acc : IndexState) : Prop where
  pending : ∀ h q, s.pendingProposals.get? h = some q →
    acc.withdrawn.get? h = none ∧ ∃ seen, acc.proposals.get? h = some seen ∧ Names seen.entry q
  known : ∀ h seen, acc.proposals.get? h = some seen →
    ∃ k < n, ∃ s entry s' applied, EntryAt crypto entries k s entry h s' applied
  withdrawn : ∀ h, acc.withdrawn.get? h = some () → ∃ seen, acc.proposals.get? h = some seen

section Step
variable {crypto : Crypto} {entries : List Json} {n : Nat} {s s' : MutableChainState} {entry : ChainEntry} {hash : JsString}
  {applied : Option AppliedOperation} {entryHashAt : Nat → Option JsString} {acc : IndexState}

theorem indexEntry_direct {op : ProposableOperation} (hop : entry.operation = .direct op) :
    indexEntry entryHashAt acc entry = acc := by
  unfold indexEntry
  split <;> simp_all

theorem indexEntry_propose {p : ProposePayload} (hop : entry.operation = .propose p)
    (hhash : entryHashAt entry.seq = some hash) : indexEntry entryHashAt acc entry =
      { acc with proposals := acc.proposals.set hash ⟨⟨entry, p, hop⟩, none⟩ } := by
  unfold indexEntry
  split <;> rename_i heq <;> rw [hop] at heq <;> cases heq
  rw [hhash]

theorem indexEntry_approve {ref : JsString} (hop : entry.operation = .approve ref) {seen : SeenProposal}
    (hseen : acc.proposals.get? ref = some seen) : indexEntry entryHashAt acc entry =
      { acc with proposals := acc.proposals.set ref { seen with lastApproveSeq := some entry.seq } } := by
  unfold indexEntry
  split <;> rename_i heq <;> rw [hop] at heq <;> cases heq
  rw [hseen]

theorem indexEntry_withdraw {ref : JsString} (hop : entry.operation = .withdraw ref) :
    indexEntry entryHashAt acc entry = { acc with withdrawn := acc.withdrawn.set ref () } := by
  unfold indexEntry
  split <;> rename_i heq <;> rw [hop] at heq <;> cases heq
  rfl

theorem Indexed.fresh (hdistinct : HashesDistinct crypto entries entries) (h : Indexed crypto entries n s acc)
    (hat : EntryAt crypto entries n s entry hash s' applied) :
    acc.proposals.get? hash = none ∧ acc.withdrawn.get? hash = none := by
  have hproposals : acc.proposals.get? hash = none := by
    cases hseen : acc.proposals.get? hash with
    | none => rfl
    | some seen =>
      obtain ⟨k, hk, _, _, _, _, hat'⟩ := h.known hash seen hseen
      have := position_of_hash hdistinct hat' hat
      omega
  refine ⟨hproposals, ?_⟩
  cases hw : acc.withdrawn.get? hash with
  | none => rfl
  | some _ =>
    obtain ⟨seen, hseen⟩ := h.withdrawn hash hw
    rw [hproposals] at hseen
    cases hseen

theorem Indexed.later (h : Indexed crypto entries n s acc)
    (hpending : ∀ k q, s'.pendingProposals.get? k = some q → s.pendingProposals.get? k = some q) :
    Indexed crypto entries (n + 1) s' acc := by
  refine ⟨fun k q hq => h.pending k q (hpending k q hq), fun k seen hseen => ?_, h.withdrawn⟩
  obtain ⟨i, hi, hat⟩ := h.known k seen hseen
  exact ⟨i, Nat.lt_succ_of_lt hi, hat⟩

theorem Indexed.approve (h : Indexed crypto entries n s acc) {ref : JsString} {q : PendingProposal}
    (hq : s.pendingProposals.get? ref = some q) (hop : entry.operation = .approve ref)
    (hpending : ∀ k q', s'.pendingProposals.get? k = some q' → ∃ old, s.pendingProposals.get? k = some old ∧
      ∀ proposed, Names proposed old → Names proposed q') :
    Indexed crypto entries (n + 1) s' (indexEntry entryHashAt acc entry) := by
  obtain ⟨-, seen, hseen, -⟩ := h.pending ref q hq
  rw [indexEntry_approve hop hseen]
  refine ⟨fun k q' hq' => ?_, fun k seen' hseen' => ?_, fun k hk => ?_⟩
  · obtain ⟨old, hold, hnames⟩ := hpending k q' hq'
    obtain ⟨hnot, seen', hseen', hnames'⟩ := h.pending k old hold
    refine ⟨hnot, ?_⟩
    dsimp only
    rw [OrderedMap.get?_set]
    split_ifs with hk
    · subst hk
      rw [hseen, Option.some.injEq] at hseen'
      subst hseen'
      exact ⟨_, rfl, hnames _ hnames'⟩
    · exact ⟨seen', hseen', hnames _ hnames'⟩
  · have hknown : ∃ old, acc.proposals.get? k = some old := by
      have hseen' := (OrderedMap.get?_set _ _ _ _).symm.trans hseen'
      split_ifs at hseen' with hk
      · exact ⟨seen, hk ▸ hseen⟩
      · exact ⟨seen', hseen'⟩
    obtain ⟨old, hold⟩ := hknown
    obtain ⟨i, hi, hat⟩ := h.known k old hold
    exact ⟨i, Nat.lt_succ_of_lt hi, hat⟩
  · obtain ⟨old, hold⟩ := h.withdrawn k hk
    dsimp only
    rw [OrderedMap.get?_set]
    split_ifs with heq
    · exact ⟨_, rfl⟩
    · exact ⟨old, hold⟩

theorem Indexed.step (hdistinct : HashesDistinct crypto entries entries)
    (hat : EntryAt crypto entries n s entry hash s' applied) (hhash : entryHashAt entry.seq = some hash)
    (h : Indexed crypto entries n s acc) : Indexed crypto entries (n + 1) s' (indexEntry entryHashAt acc entry) := by
  have hgone : ∀ (pending : OrderedMap JsString PendingProposal) (gone k : JsString) (q : PendingProposal),
      (pending.delete gone).get? k = some q → k ≠ gone ∧ pending.get? k = some q := by
    intro pending gone k q hq
    rw [OrderedMap.get?_delete] at hq
    split_ifs at hq with hk
    exact ⟨hk, hq⟩
  have ht := hat.transition
  cases ht with
  | genesis p hop =>
    rw [indexEntry_direct hop]
    exact h.later fun k q hq => hq
  | direct op m d hop hgenesis auth htarget =>
    rw [indexEntry_direct hop]
    refine h.later fun k q hq => ?_
    rwa [pendingProposals_applyOperation] at hq
  | proposed p m d hop auth htarget =>
    obtain ⟨hfresh, hnot⟩ := h.fresh hdistinct hat
    rw [indexEntry_propose hop hhash]
    refine ⟨fun k q hq => ?_, fun k seen hseen => ?_, fun k hk => ?_⟩
    · have hq := (OrderedMap.get?_set _ _ _ _).symm.trans hq
      dsimp only
      rw [OrderedMap.get?_set]
      split_ifs at hq ⊢ with hk
      · cases hq
        obtain ⟨huser, hfp⟩ := actor_eq hat auth.device
        refine ⟨hk ▸ hnot, _, rfl, rfl, rfl, ?_⟩
        simp only [proposalOf, huser, hfp]
      · exact h.pending k q hq
    · have hseen := (OrderedMap.get?_set _ _ _ _).symm.trans hseen
      split_ifs at hseen with hk
      · exact ⟨n, Nat.lt_succ_self n, _, _, _, _, hk ▸ hat⟩
      · obtain ⟨i, hi, hknown⟩ := h.known k seen hseen
        exact ⟨i, Nat.lt_succ_of_lt hi, hknown⟩
    · obtain ⟨old, hold⟩ := h.withdrawn k hk
      dsimp only
      rw [OrderedMap.get?_set]
      split_ifs with heq
      · exact ⟨_, rfl⟩
      · exact ⟨old, hold⟩
  | voted ref q m d hop hactor howner hq hvote =>
    refine h.approve hq hop fun k q' hq' => ?_
    have hq' := (OrderedMap.get?_set _ _ _ _).symm.trans hq'
    split_ifs at hq' with hk
    · cases hq'
      exact ⟨q, hk ▸ hq, fun proposed hnames => ⟨hnames.seq, hnames.inner, hnames.actor⟩⟩
    · exact ⟨q', hq', fun _ hnames => hnames⟩
  | completed ref q policy m d proposer device hop hactor howner hq =>
    refine h.approve hq hop fun k q' hq' => ?_
    rw [pendingProposals_applyOperation] at hq'
    exact ⟨q', (hgone _ _ _ _ hq').2, fun _ hnames => hnames⟩
  | withdrawn ref q m d hop hactor hq hright =>
    rw [indexEntry_withdraw hop]
    have hkey := hat.keyed.pending ref q hq
    rw [hkey]
    obtain ⟨-, seen, hseen, -⟩ := h.pending ref q hq
    refine ⟨fun k q' hq' => ?_, fun k seen' hseen' => ?_, fun k hk => ?_⟩
    · obtain ⟨hk, hq'⟩ := hgone _ _ _ _ hq'
      dsimp only
      rw [OrderedMap.get?_set_ne _ _ hk]
      exact h.pending k q' hq'
    · obtain ⟨i, hi, hknown⟩ := h.known k seen' hseen'
      exact ⟨i, Nat.lt_succ_of_lt hi, hknown⟩
    · have hk := (OrderedMap.get?_set _ _ _ _).symm.trans hk
      split_ifs at hk with heq
      · exact ⟨seen, heq ▸ hseen⟩
      · exact h.withdrawn k hk

/-- What one entry does to a proposal the loop has seen. -/
inductive Turn (s s' : MutableChainState) (acc acc' : IndexState) (n : Nat) (applied : Option AppliedOperation) (ref : JsString)
    (seen : SeenProposal) : Prop
  | keeps (hpending : s'.pendingProposals.get? ref = none ↔ s.pendingProposals.get? ref = none)
      (hseen : acc'.proposals.get? ref = some seen) (hwithdrawn : acc'.withdrawn.get? ref = acc.withdrawn.get? ref)
  | approves (hbefore : s.pendingProposals.get? ref ≠ none)
      (hpending : s'.pendingProposals.get? ref = none ↔ applied.isSome = true)
      (hseen : acc'.proposals.get? ref = some { seen with lastApproveSeq := some (n + 1) })
      (hwithdrawn : acc'.withdrawn.get? ref = acc.withdrawn.get? ref)
  | withdraws (hbefore : s.pendingProposals.get? ref ≠ none) (hseen : acc'.proposals.get? ref = some seen)
      (hwithdrawn : acc'.withdrawn.get? ref = some ())

theorem Indexed.turn (hdistinct : HashesDistinct crypto entries entries)
    (hat : EntryAt crypto entries n s entry hash s' applied) (hhash : entryHashAt entry.seq = some hash)
    (h : Indexed crypto entries n s acc) {ref : JsString} {seen : SeenProposal} (hseen : acc.proposals.get? ref = some seen) :
    Turn s s' acc (indexEntry entryHashAt acc entry) n applied ref seen := by
  have ht := hat.transition
  cases ht with
  | genesis p hop =>
    rw [indexEntry_direct hop]
    exact .keeps Iff.rfl hseen rfl
  | direct op m d hop hgenesis auth htarget =>
    rw [indexEntry_direct hop]
    exact .keeps (by rw [pendingProposals_applyOperation]) hseen rfl
  | proposed p m d hop auth htarget =>
    have hne : ref ≠ hash := by
      rintro rfl
      rw [(h.fresh hdistinct hat).1] at hseen
      cases hseen
    rw [indexEntry_propose hop hhash]
    refine .keeps ?_ ?_ rfl
    · unfold withPending
      dsimp only
      rw [OrderedMap.get?_set_ne _ _ hne]
    · dsimp only
      rw [OrderedMap.get?_set_ne _ _ hne, hseen]
  | voted ref' q m d hop hactor howner hq hvote =>
    obtain ⟨-, seen', hseen', -⟩ := h.pending ref' q hq
    rw [indexEntry_approve hop hseen', hat.seq_eq]
    unfold withPending
    by_cases hne : ref = ref'
    · subst hne
      rw [hseen, Option.some.injEq] at hseen'
      subst hseen'
      exact .approves (by rw [hq]; exact Option.some_ne_none q) (by simp) (by simp) rfl
    · exact .keeps (by simp [OrderedMap.get?_set_ne _ _ hne]) (by simp [OrderedMap.get?_set_ne _ _ hne, hseen]) rfl
  | completed ref' q policy m d proposer device hop hactor howner hq =>
    obtain ⟨-, seen', hseen', -⟩ := h.pending ref' q hq
    rw [indexEntry_approve hop hseen', hat.seq_eq, pendingProposals_applyOperation, hat.keyed.pending ref' q hq]
    unfold withPending
    by_cases hne : ref = ref'
    · subst hne
      rw [hseen, Option.some.injEq] at hseen'
      subst hseen'
      exact .approves (by rw [hq]; exact Option.some_ne_none q) (by simp) (by simp) rfl
    · exact .keeps (by simp [OrderedMap.get?_delete, hne]) (by simp [OrderedMap.get?_set_ne _ _ hne, hseen]) rfl
  | withdrawn ref' q m d hop hactor hq hright =>
    rw [indexEntry_withdraw hop, hat.keyed.pending ref' q hq]
    unfold withPending
    by_cases hne : ref = ref'
    · subst hne
      exact .withdraws (by rw [hq]; exact Option.some_ne_none q) hseen (by simp)
    · exact .keeps (by simp [OrderedMap.get?_delete, hne]) hseen (by simp [OrderedMap.get?_set_ne _ _ hne])

end Step

/-! ## The fate of a proposal -/

/-- The proposal `ref` was completed by the approve at seq `m`. -/
structure CompletedAt (proposed : ProposeEntry) (ref : JsString) (m : Nat) (s : MutableChainState) (acc : IndexState) :
    Prop where
  pending : s.pendingProposals.get? ref = none
  withdrawn : acc.withdrawn.get? ref = none
  seen : ∃ seen, acc.proposals.get? ref = some seen ∧ seen.entry = proposed ∧ seen.lastApproveSeq = some m

/-- The proposal `ref` was not completed by seq `m`: it is pending, withdrawn, or approved later. -/
structure OpenAt (proposed : ProposeEntry) (ref : JsString) (m : Nat) (s : MutableChainState) (acc : IndexState) : Prop where
  seen : ∃ seen, acc.proposals.get? ref = some seen ∧ seen.entry = proposed ∧
    (s.pendingProposals.get? ref ≠ none ∨ acc.withdrawn.get? ref ≠ none ∨ ∃ m' > m, seen.lastApproveSeq = some m')

section Fate
variable {s s' : MutableChainState} {acc acc' : IndexState} {n m : Nat} {applied : Option AppliedOperation} {ref : JsString}
  {proposed : ProposeEntry}

theorem CompletedAt.turn (h : CompletedAt proposed ref m s acc)
    (hturn : ∀ seen, acc.proposals.get? ref = some seen → Turn s s' acc acc' n applied ref seen) :
    CompletedAt proposed ref m s' acc' := by
  obtain ⟨seen, hseen, hentry, hlast⟩ := h.seen
  cases hturn seen hseen with
  | keeps hpending hseen' hwithdrawn => exact ⟨hpending.mpr h.pending, hwithdrawn.trans h.withdrawn, seen, hseen', hentry, hlast⟩
  | approves hbefore => exact absurd h.pending hbefore
  | withdraws hbefore => exact absurd h.pending hbefore

theorem OpenAt.turn (hm : m ≤ n) (h : OpenAt proposed ref m s acc)
    (hturn : ∀ seen, acc.proposals.get? ref = some seen → Turn s s' acc acc' n applied ref seen) :
    OpenAt proposed ref m s' acc' := by
  obtain ⟨seen, hseen, hentry, hopen⟩ := h.seen
  cases hturn seen hseen with
  | keeps hpending hseen' hwithdrawn =>
    refine ⟨seen, hseen', hentry, ?_⟩
    rwa [Ne, hpending, hwithdrawn]
  | approves hbefore hpending hseen' hwithdrawn =>
    exact ⟨_, hseen', hentry, Or.inr (Or.inr ⟨n + 1, by omega, rfl⟩)⟩
  | withdraws hbefore hseen' hwithdrawn =>
    refine ⟨seen, hseen', hentry, Or.inr (Or.inl ?_)⟩
    rw [hwithdrawn]
    exact Option.some_ne_none ()

end Fate

/-! ## The index of a chain -/

theorem get?_indexProposals (entries : List ChainEntry) (entryHashAt : Nat → Option JsString)
    (pendingHashes : OrderedMap JsString Unit) (ref : JsString) :
    (indexProposals entries entryHashAt pendingHashes).get? ref =
      ((indexEntries entries entryHashAt).proposals.get? ref).map fun seen =>
        { entry := seen.entry
          completedAtSeq := if !pendingHashes.has ref && !(indexEntries entries entryHashAt).withdrawn.has ref
            then seen.lastApproveSeq else none } := by
  unfold indexProposals
  exact OrderedMap.get?_ofEntries_map (fun hash (seen : SeenProposal) => ({
    entry := seen.entry
    completedAtSeq := if !pendingHashes.has hash && !(indexEntries entries entryHashAt).withdrawn.has hash
      then seen.lastApproveSeq else none } : IndexedProposal)) _ ref

end Maruhi.Audit
