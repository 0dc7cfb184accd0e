import Maruhi.Chain.Injective
import Maruhi.Chain.RenamedRuns

/-!
# What the head hash commits to

Lists that end on one hash are equal entry by entry, up to what the encoder forgets of a text. Where
it forgets nothing the derived states are equal.
-/

open Text Utf8 Run

namespace Maruhi.Chain

/-! ## Entries up to the reason of a rotation -/

def ProposableOperation.eraseReason : ProposableOperation → ProposableOperation
  | .rotateEpoch p => .rotateEpoch { p with reason := [] }
  | operation => operation

def ChainOperation.eraseReason : ChainOperation → ChainOperation
  | .direct operation => .direct operation.eraseReason
  | .propose p => .propose { p with inner := p.inner.eraseReason }
  | operation => operation

/-- The entry without the one field the derived state does not depend on. -/
def ChainEntry.eraseReason (entry : ChainEntry) : ChainEntry :=
  { entry with operation := entry.operation.eraseReason }

theorem eraseReason_eq {op op' : ProposableOperation} (h : op.eraseReason = op'.eraseReason) :
    op = op' ∨ ∃ p reason, op = .rotateEpoch p ∧ op' = .rotateEpoch { p with reason } := by
  cases op <;> cases op' <;> first | exact Or.inl h | cases h | skip
  case rotateEpoch.rotateEpoch p p' =>
    obtain ⟨id, epoch, reason, dek⟩ := p
    obtain ⟨id', epoch', reason', dek'⟩ := p'
    simp only [ProposableOperation.eraseReason, ProposableOperation.rotateEpoch.injEq, RotateEpochPayload.mk.injEq] at h
    obtain ⟨rfl, rfl, -, rfl⟩ := h
    exact Or.inr ⟨_, reason', rfl, rfl⟩

theorem rotateEpoch_no_target (p : RotateEpochPayload) (policy : Option ApprovalPolicy) :
    isApprovalTarget (.rotateEpoch p) policy = false := by
  unfold isApprovalTarget
  split
  · rfl
  · simp [isSetApprovalPolicy, establishesOwner, approvalTargetOpOf]

section Transition
variable {crypto : Crypto} {s s' : MutableChainState} {entry : ChainEntry} {hash : JsString}
  {applied : Option AppliedOperation} {p : RotateEpochPayload}

theorem transition_rotateEpoch (h : Transition crypto s entry hash s' applied)
    (hop : entry.operation = .direct (.rotateEpoch p)) : s' = applyRotateEpoch p s entry.seq := by
  cases h with
  | direct operation m d hop' => rw [hop] at hop'; cases hop'; rfl
  | genesis p hop' => rw [hop] at hop'; cases hop'
  | proposed p m d hop' => rw [hop] at hop'; cases hop'
  | voted href pending m d hop' => rw [hop] at hop'; cases hop'
  | completed href pending policy m d proposer device hop' => rw [hop] at hop'; cases hop'
  | withdrawn href pending m d hop' => rw [hop] at hop'; cases hop'

theorem transition_propose_rotateEpoch {expires : Nat} (hop : entry.operation = .propose ⟨.rotateEpoch p, expires⟩) :
    ¬ Transition crypto s entry hash s' applied := by
  intro h
  cases h with
  | proposed p m d hop' _ htarget =>
    rw [hop] at hop'
    cases hop'
    rw [rotateEpoch_no_target] at htarget
    cases htarget
  | genesis p hop' => rw [hop] at hop'; cases hop'
  | direct operation m d hop' => rw [hop] at hop'; cases hop'
  | voted href pending m d hop' => rw [hop] at hop'; cases hop'
  | completed href pending policy m d proposer device hop' => rw [hop] at hop'; cases hop'
  | withdrawn href pending m d hop' => rw [hop] at hop'; cases hop'

end Transition

/-- The state after an entry does not depend on the reason of a rotation. -/
theorem evaluateEntry_eraseReason {crypto : Crypto} {entry entry' : ChainEntry} {hash : JsString}
    {s t t' : MutableChainState} {applied applied' : Option AppliedOperation}
    (heq : entry.eraseReason = entry'.eraseReason) (h : evaluateEntry crypto entry hash s = .ok (t, applied))
    (h' : evaluateEntry crypto entry' hash s = .ok (t', applied')) : t = t' := by
  obtain ⟨suite, seq, prev, op, actor, time, sig⟩ := entry
  obtain ⟨suite', seq', prev', op', actor', time', sig'⟩ := entry'
  simp only [ChainEntry.eraseReason, ChainEntry.mk.injEq] at heq
  obtain ⟨rfl, rfl, rfl, hop, rfl, rfl, rfl⟩ := heq
  have hsame : op = op' → t = t' := by
    rintro rfl
    rw [h] at h'
    cases h'
    rfl
  cases op with
  | direct op =>
    cases op' with
    | direct op' =>
      rcases eraseReason_eq (ChainOperation.direct.inj hop) with rfl | ⟨p, reason, rfl, rfl⟩
      · exact hsame rfl
      · exact (transition_rotateEpoch (evaluateEntry_ok h) rfl).trans
          (transition_rotateEpoch (evaluateEntry_ok h') rfl).symm
    | _ => cases hop
  | propose p =>
    cases op' with
    | propose p' =>
      obtain ⟨op, expires⟩ := p
      obtain ⟨op', expires'⟩ := p'
      simp only [ChainOperation.eraseReason, ChainOperation.propose.injEq, ProposePayload.mk.injEq] at hop
      obtain ⟨hinner, rfl⟩ := hop
      rcases eraseReason_eq hinner with rfl | ⟨p, reason, rfl, rfl⟩
      · exact hsame rfl
      · exact absurd (evaluateEntry_ok h) (transition_propose_rotateEpoch rfl)
    | _ => cases hop
  | approve hash => cases op' <;> cases hop; exact hsame rfl
  | withdraw hash => cases op' <;> cases hop; exact hsame rfl

/-! ## Lists that end on one hash -/

/-- The entries of a list that are read. -/
def readEntries (entries : List Json) : List ChainEntry := entries.filterMap checkPayloadShape

/-- No two entries of the lists are hashed alike without being encoded alike. -/
def HashesDistinct (crypto : Crypto) (entries entries' : List Json) : Prop :=
  ∀ e ∈ readEntries entries, ∀ e' ∈ readEntries entries', ∀ b b', canonicalChainEntryBytes e = some b →
    canonicalChainEntryBytes e' = some b' → crypto.sha256 b = crypto.sha256 b' → b = b'

/-- Two values read as entries that are encoded alike. -/
structure EncodedAlike (j j' : Json) (e e' : ChainEntry) : Prop where
  left : checkPayloadShape j = some e
  right : checkPayloadShape j' = some e'
  bytes : canonicalChainEntryBytes e = canonicalChainEntryBytes e'
  texts : e.mapTexts binary = e'.mapTexts binary

theorem runs_prevHash_ascii {crypto : Crypto} {history : Option ChainHistoryBuilder} {entries : List Json}
    {loop : LoopState} (hrun : Runs crypto history entries loop) : ∀ u ∈ loop.prevHash, u.toNat < 0x80 := by
  cases entries using List.reverseRecOn with
  | nil =>
    obtain rfl := (reaches_nil _ _).mp hrun
    have hgenesis : ∀ u ∈ genesisPrevHash, u.toNat < 0x80 := ascii_of_all (by decide)
    exact hgenesis
  | append_singleton pre j =>
    obtain ⟨mid, hmid, hstep⟩ := (reaches_snoc _ _ _ _).mp hrun
    obtain ⟨e, hash, applied, hacc⟩ := verifyEntry_ok hstep
    obtain ⟨bytes, -, hsum⟩ := Option.map_eq_some_iff.mp hacc.hash_eq
    rw [hacc.prevHash_eq, ← hsum]
    exact encodeHex_ascii _

theorem snoc_encodedAlike {crypto : Crypto} {pre pre' : List Json} {j j' : Json} {loop loop' : LoopState}
    (hrun : Runs crypto none (pre ++ [j]) loop) (hrun' : Runs crypto none (pre' ++ [j']) loop')
    (hdistinct : HashesDistinct crypto (pre ++ [j]) (pre' ++ [j'])) (hhash : loop.prevHash = loop'.prevHash) :
    (∃ e e', EncodedAlike j j' e e') ∧ pre.length = pre'.length ∧
      ∃ mid mid', Runs crypto none pre mid ∧ Runs crypto none pre' mid' ∧ mid.prevHash = mid'.prevHash := by
  obtain ⟨mid, hmid, hstep⟩ := (reaches_snoc _ _ _ _).mp hrun
  obtain ⟨mid', hmid', hstep'⟩ := (reaches_snoc _ _ _ _).mp hrun'
  obtain ⟨e, hash, applied, hacc⟩ := verifyEntry_ok hstep
  obtain ⟨e', hash', applied', hacc'⟩ := verifyEntry_ok hstep'
  have hread : e ∈ readEntries (pre ++ [j]) := List.mem_filterMap.mpr ⟨j, by simp, hacc.shape⟩
  have hread' : e' ∈ readEntries (pre' ++ [j']) := List.mem_filterMap.mpr ⟨j', by simp, hacc'.shape⟩
  rw [hacc.prevHash_eq, hacc'.prevHash_eq] at hhash
  obtain ⟨bytes, hbytes, hsum⟩ := Option.map_eq_some_iff.mp hacc.hash_eq
  obtain ⟨bytes', hbytes', hsum'⟩ := Option.map_eq_some_iff.mp hacc'.hash_eq
  rw [← hsum, ← hsum'] at hhash
  obtain rfl := hdistinct e hread e' hread' bytes bytes' hbytes hbytes' (encodeHex_inj hhash)
  obtain ⟨halike, hsig⟩ := canonicalEntry_alike (checkPayloadShape_shaped hacc.shape) hbytes hbytes'
  have hframed := hacc.framed
  have hframed' := hacc'.framed
  have hprev := halike.prevHash
  rw [hframed.prevHash_eq, hframed'.prevHash_eq] at hprev
  have hprev := utf8Encode_inj_of_ascii (runs_prevHash_ascii hmid) hprev
  refine ⟨⟨e, e', hacc.shape, hacc'.shape, hbytes.trans hbytes'.symm, ?_⟩, ?_, mid, mid', hmid, hmid', hprev⟩
  · have hprev : e.prevHashHex = e'.prevHashHex := by rw [hframed.prevHash_eq, hframed'.prevHash_eq, hprev]
    have hsuite : e.suite = e'.suite := by rw [hframed.suite_eq, hframed'.suite_eq]
    unfold ChainEntry.mapTexts
    obtain ⟨suite, seq, prev, op, actor, time, sig⟩ := e
    obtain ⟨suite', seq', prev', op', actor', time', sig'⟩ := e'
    simp only [ChainEntry.mk.injEq]
    exact ⟨hsuite, halike.seq, hprev, halike.operation, halike.actor, halike.timestamp, hsig⟩
  · have hseq := halike.seq
    rw [hframed.seq_eq, hframed'.seq_eq, runs_seq hmid, runs_seq hmid'] at hseq
    omega

theorem runs_encodedAlike {crypto : Crypto} {entries entries' : List Json} {loop loop' : LoopState}
    (hrun : Runs crypto none entries loop) (hrun' : Runs crypto none entries' loop')
    (hdistinct : HashesDistinct crypto entries entries') (hlength : entries.length = entries'.length)
    (hhash : loop.prevHash = loop'.prevHash) :
    List.Forall₂ (fun j j' => ∃ e e', EncodedAlike j j' e e') entries entries' := by
  induction entries using List.reverseRecOn generalizing entries' loop loop' with
  | nil =>
    rw [List.length_eq_zero_iff.mp hlength.symm]
    exact .nil
  | append_singleton pre j ih =>
    cases entries' using List.reverseRecOn with
    | nil => simp at hlength
    | append_singleton pre' j' =>
      obtain ⟨hlast, hlength, mid, mid', hmid, hmid', hprev⟩ := snoc_encodedAlike hrun hrun' hdistinct hhash
      have hbefore := ih hmid hmid' (fun e he e' he' => hdistinct e (by simp_all [readEntries]) e' (by simp_all [readEntries]))
        hlength hprev
      exact List.rel_append hbefore (.cons hlast .nil)

/-! ## Lists whose texts the encoder keeps -/

theorem binary_inj_of_replacementFree {s t : JsString} (hs : replacementFree s = true) (h : binary s = binary t) :
    s = t := utf8Encode_inj_of_replacementFree hs (binary_eq_iff.mp h)

theorem eraseReason_mapTexts (op : ProposableOperation) :
    op.eraseReason.mapTexts binary = (op.mapTexts binary).eraseReason := by
  cases op <;> rfl

theorem eraseReason_eq_of_texts {op op' : ProposableOperation} (h : op.mapTexts binary = op'.mapTexts binary)
    (hfree : ∀ s ∈ op.stateTexts, replacementFree s = true) : op.eraseReason = op'.eraseReason := by
  apply ProposableOperation.mapTexts_inj (f := binary)
  · rw [eraseReason_mapTexts, h, ← eraseReason_mapTexts]
  · intro s hs t _ heq
    refine binary_inj_of_replacementFree ?_ heq
    rcases List.mem_append.mp hs with hs | hs
    · refine hfree s ?_
      cases op <;> exact hs
    · cases op with
      | rotateEpoch p => rw [List.mem_singleton.mp hs]; rfl
      | _ => cases hs

theorem EncodedAlike.eraseReason {j j' : Json} {e e' : ChainEntry} (h : EncodedAlike j j' e e')
    (hfree : ∀ s ∈ e.stateTexts, replacementFree s = true) : e.eraseReason = e'.eraseReason := by
  have htexts := h.texts
  obtain ⟨suite, seq, prev, op, actor, time, sig⟩ := e
  obtain ⟨suite', seq', prev', op', actor', time', sig'⟩ := e'
  obtain ⟨user, fp⟩ := actor
  obtain ⟨user', fp'⟩ := actor'
  simp only [ChainEntry.mapTexts, ChainActor.mapTexts, ChainEntry.mk.injEq, ChainActor.mk.injEq] at htexts
  obtain ⟨rfl, rfl, rfl, hop, ⟨huser, rfl⟩, rfl, rfl⟩ := htexts
  obtain rfl := binary_inj_of_replacementFree (hfree user (by simp [ChainEntry.stateTexts])) huser
  unfold ChainEntry.eraseReason
  simp only [ChainEntry.mk.injEq, true_and, and_true]
  cases op with
  | direct op =>
    cases op' with
    | direct op' =>
      have := eraseReason_eq_of_texts (ChainOperation.direct.inj hop) fun s hs => hfree s
        (by simpa [ChainEntry.stateTexts, carried] using Or.inr hs)
      exact congrArg ChainOperation.direct this
    | _ => cases hop
  | propose p =>
    cases op' with
    | propose p' =>
      obtain ⟨op, expires⟩ := p
      obtain ⟨op', expires'⟩ := p'
      simp only [ChainOperation.mapTexts, ChainOperation.propose.injEq, ProposePayload.mk.injEq] at hop
      obtain ⟨hop, rfl⟩ := hop
      have := eraseReason_eq_of_texts hop fun s hs => hfree s
        (by simpa [ChainEntry.stateTexts, carried] using Or.inr hs)
      unfold ChainOperation.eraseReason
      dsimp only
      rw [this]
    | _ => cases hop
  | approve hash => cases op' <;> cases hop; rfl
  | withdraw hash => cases op' <;> cases hop; rfl

/-- Two values read as entries equal in every field the derived state depends on. -/
def AgreeOnState (j j' : Json) : Prop :=
  ∃ e e', checkPayloadShape j = some e ∧ checkPayloadShape j' = some e' ∧ e.eraseReason = e'.eraseReason

theorem verifyEntry_agree {crypto : Crypto} {loop a b : LoopState} {j j' : Json} {e e' : ChainEntry}
    (halike : EncodedAlike j j' e e') (hagree : e.eraseReason = e'.eraseReason) (hhistory : loop.history = none)
    (h : verifyEntry crypto loop j = .ok a) (h' : verifyEntry crypto loop j' = .ok b) : a = b ∧ a.history = none := by
  obtain ⟨e₁, hash, applied, hacc⟩ := verifyEntry_ok h
  obtain ⟨e₂, hash', applied', hacc'⟩ := verifyEntry_ok h'
  obtain rfl := Option.some.inj (hacc.shape.symm.trans halike.left)
  obtain rfl := Option.some.inj (hacc'.shape.symm.trans halike.right)
  have hhash := hacc.hash_eq
  rw [computeChainEntryHash, halike.bytes] at hhash
  obtain rfl := Option.some.inj (hhash.symm.trans hacc'.hash_eq)
  have hstate := evaluateEntry_eraseReason hagree hacc.evaluated hacc'.evaluated
  have ha := hacc.history_eq
  have hb := hacc'.history_eq
  have hseq := hacc.seq_eq.trans hacc'.seq_eq.symm
  have hprev := hacc.prevHash_eq.trans hacc'.prevHash_eq.symm
  rw [hhistory] at ha hb
  obtain ⟨sa, ha', pa, qa⟩ := a
  obtain ⟨sb, hb', pb, qb⟩ := b
  cases ha
  cases hb
  cases hstate
  cases hseq
  cases hprev
  exact ⟨rfl, rfl⟩

theorem reaches_agree {crypto : Crypto} {entries entries' : List Json} {loop a b : LoopState}
    (hagree : List.Forall₂ (fun j j' => ∃ e e', EncodedAlike j j' e e' ∧ e.eraseReason = e'.eraseReason) entries entries')
    (hhistory : loop.history = none) (h : Reaches (verifyEntry crypto) loop entries a)
    (h' : Reaches (verifyEntry crypto) loop entries' b) : a = b := by
  induction hagree generalizing loop with
  | nil => rw [(reaches_nil _ _).mp h, (reaches_nil _ _).mp h']
  | cons hx _ ih =>
    obtain ⟨e, e', halike, hagree⟩ := hx
    obtain ⟨m, hm, hrest⟩ := (reaches_cons _ _ _ _).mp h
    obtain ⟨m', hm', hrest'⟩ := (reaches_cons _ _ _ _).mp h'
    obtain ⟨rfl, hnone⟩ := verifyEntry_agree halike hagree hhistory hm hm'
    exact ih hnone hrest hrest'

/-- The encoder keeps every text of the list that the derived state depends on. -/
def TextsKept (entries : List Json) : Prop :=
  ∀ e ∈ readEntries entries, ∀ s ∈ e.stateTexts, replacementFree s = true

theorem runs_agree {entries entries' : List Json}
    (halike : List.Forall₂ (fun j j' => ∃ e e', EncodedAlike j j' e e') entries entries') (hkept : TextsKept entries) :
    List.Forall₂ (fun j j' => ∃ e e', EncodedAlike j j' e e' ∧ e.eraseReason = e'.eraseReason) entries entries' := by
  induction halike with
  | nil => exact .nil
  | @cons j j' rest rest' hx _ ih =>
    obtain ⟨e, e', hx⟩ := hx
    have hread : e ∈ readEntries (j :: rest) := List.mem_filterMap.mpr ⟨j, List.mem_cons_self, hx.left⟩
    refine .cons ⟨e, e', hx, hx.eraseReason (hkept e hread)⟩ (ih fun d hd => hkept d ?_)
    obtain ⟨j, hj, hread⟩ := List.mem_filterMap.mp hd
    exact List.mem_filterMap.mpr ⟨j, List.mem_cons_of_mem _ hj, hread⟩

/-- The head hash of a list determines the list, and the derived state with it. -/
def HeadCommits (crypto : Crypto) (entries : List Json) (st : ChainState) : Prop :=
  ∀ entries' st', verifyChain crypto entries' = .ok st' → HashesDistinct crypto entries entries' →
    st.headHashHex = st'.headHashHex →
    entries.length = entries'.length ∧ List.Forall₂ AgreeOnState entries entries' ∧ st = st'

theorem headCommits_of_textsKept {crypto : Crypto} {entries : List Json} {st : ChainState}
    (h : verifyChain crypto entries = .ok st) (hkept : TextsKept entries) : HeadCommits crypto entries st := by
  intro entries' st' h' hdistinct hhead
  obtain ⟨hne, loop, hrun, rfl⟩ := verifyChain_ok_iff.mp h
  obtain ⟨hne', loop', hrun', rfl⟩ := verifyChain_ok_iff.mp h'
  have hhash : loop.prevHash = loop'.prevHash := hhead
  have hlength : entries.length = entries'.length := by
    cases entries using List.reverseRecOn with
    | nil => exact absurd rfl hne
    | append_singleton pre j =>
      cases entries' using List.reverseRecOn with
      | nil => exact absurd rfl hne'
      | append_singleton pre' j' =>
        have hpre := (snoc_encodedAlike hrun hrun' hdistinct hhash).2.1
        rw [List.length_append, List.length_append, hpre]
        rfl
  have hagree := runs_agree (runs_encodedAlike hrun hrun' hdistinct hlength hhash) hkept
  obtain rfl := reaches_agree hagree rfl hrun hrun'
  rw [hlength]
  exact ⟨rfl, hagree.imp fun _ _ ⟨e, e', halike, heq⟩ => ⟨e, e', halike.left, halike.right, heq⟩, rfl⟩

/-! ## Lists whose texts the encoder does not keep -/

theorem stateTexts_eraseReason (entry : ChainEntry) : entry.eraseReason.stateTexts = entry.stateTexts := by
  have hop : ∀ op : ProposableOperation, op.eraseReason.stateTexts = op.stateTexts := by
    intro op
    cases op <;> rfl
  obtain ⟨suite, seq, prev, operation, actor, time, sig⟩ := entry
  cases operation <;>
    simp [ChainEntry.stateTexts, ChainEntry.eraseReason, ChainOperation.eraseReason, carried, hop]

section Renamed
variable {f : JsString ↪ JsString} (hf : ∀ s, utf8Encode (f s) = utf8Encode s)
include hf

theorem readEntries_rename (entries : List Json) :
    readEntries (entries.map (renameJson f)) = (readEntries entries).map (·.mapTexts f) := by
  simp only [readEntries, List.filterMap_map, List.map_filterMap, Function.comp_def, checkPayloadShape_renameJson hf]

theorem hashesDistinct_rename {crypto : Crypto} {entries : List Json}
    (h : HashesDistinct crypto entries entries) :
    HashesDistinct crypto entries (entries.map (renameJson f)) := by
  intro e he e' he' b b' hb hb'
  rw [readEntries_rename hf] at he'
  obtain ⟨d, hd, rfl⟩ := List.mem_map.mp he'
  rw [canonicalChainEntryBytes_mapTexts hf] at hb'
  exact h e he d hd b b' hb hb'

theorem not_agreeOnState_rename {j : Json} {entry : ChainEntry} (hread : checkPayloadShape j = some entry)
    {s : JsString} (hs : s ∈ entry.stateTexts) (hne : f s ≠ s) : ¬ AgreeOnState j (renameJson f j) := by
  rintro ⟨e, e', he, he', heq⟩
  rw [checkPayloadShape_renameJson hf, hread] at he'
  obtain rfl := Option.some.inj (hread.symm.trans he)
  obtain rfl := Option.some.inj he'
  have htexts : entry.stateTexts.map f = entry.stateTexts.map id := by
    rw [← ChainEntry.stateTexts_mapTexts, ← stateTexts_eraseReason, ← heq, stateTexts_eraseReason, List.map_id]
  exact hne (List.map_inj_left.mp htexts s hs)

end Renamed

/-- A text that is not kept gives the list a twin: the same list with the text exchanged for another one
that is encoded alike. -/
theorem textsKept_of_headCommits {crypto : Crypto} {entries : List Json} {st : ChainState}
    (h : verifyChain crypto entries = .ok st) (hself : HashesDistinct crypto entries entries)
    (hcommits : HeadCommits crypto entries st) : TextsKept entries := by
  intro entry hentry s hs
  by_contra hlost
  obtain ⟨f, hf, hne⟩ := exists_renaming (by simpa using hlost)
  obtain ⟨st', h', hhead⟩ := verifyChain_rename hf h
  obtain ⟨-, hagree, -⟩ := hcommits _ st' h' (hashesDistinct_rename hf hself) hhead.symm
  obtain ⟨j, hj, hread⟩ := List.mem_filterMap.mp hentry
  rw [List.forall₂_map_right_iff, List.forall₂_same] at hagree
  exact not_agreeOnState_rename hf hread hs hne (hagree j hj)

/-- A chain started by a person whose id is this one code unit. -/
def oneUnitGenesis (unit : UInt16) : ChainEntry :=
  { exampleGenesis with
    actor := { userId := [unit], keyFingerprintHex := aliceKey.fingerprint }
    signatureHex := hex signatureBytes
      0xcbc42320107ba4840a39854eb5f3c9c6c63bc5d0a225a62c6845cd968c77fb75bf5a15fa09bb68d6c017e1f1b6d25a18eab37e9fd4869a6ad39967c705acea08 }

/-- SHA-256, and an Ed25519 under which exactly the signature of that entry is valid. -/
def oneUnitCrypto : Crypto where
  sha256 := Sha256.sha256
  ed25519Verify publicKey signedBytes signature :=
    decodeHex aliceKey.sig = some publicKey && canonicalChainSignedBytes (oneUnitGenesis 0xFFFD) = some signedBytes &&
      decodeHex (oneUnitGenesis 0xFFFD).signatureHex = some signature

/-- The states of two lists agree on the head hash only. -/
def sameHeadOnly (result result' : Except VerifyFailure ChainState) (userId : UserId) : Bool :=
  match result, result' with
  | .ok st, .ok st' => st.headHashHex = st'.headHashHex && st.members.has userId && !st'.members.has userId
  | _, _ => false

set_option maxRecDepth 20000 in
theorem oneUnitGenesis_facts :
    sameHeadOnly (verifyChain oneUnitCrypto [entryJson (oneUnitGenesis 0xD800)])
      (verifyChain oneUnitCrypto [entryJson (oneUnitGenesis 0xFFFD)]) [0xD800] = true ∧
    readEntries [entryJson (oneUnitGenesis 0xD800)] = [oneUnitGenesis 0xD800] ∧
    readEntries [entryJson (oneUnitGenesis 0xFFFD)] = [oneUnitGenesis 0xFFFD] ∧
    canonicalChainEntryBytes (oneUnitGenesis 0xD800) = canonicalChainEntryBytes (oneUnitGenesis 0xFFFD) := by
  decide +kernel

theorem oneUnitGenesis_states : ∃ st st', verifyChain oneUnitCrypto [entryJson (oneUnitGenesis 0xD800)] = .ok st ∧
    verifyChain oneUnitCrypto [entryJson (oneUnitGenesis 0xFFFD)] = .ok st' ∧ st.headHashHex = st'.headHashHex ∧
    st ≠ st' := by
  have hheads := oneUnitGenesis_facts.1
  unfold sameHeadOnly at hheads
  split at hheads
  · rename_i st st' hst hst'
    simp only [Bool.and_eq_true, Bool.not_eq_true', decide_eq_true_eq] at hheads
    obtain ⟨⟨hhead, hhas⟩, hnot⟩ := hheads
    refine ⟨st, st', hst, hst', hhead, ?_⟩
    rintro rfl
    rw [hhas] at hnot
    cases hnot
  · cases hheads

theorem oneUnitGenesis_distinct {unit : UInt16} (h : unit = 0xD800 ∨ unit = 0xFFFD) :
    HashesDistinct oneUnitCrypto [entryJson (oneUnitGenesis 0xD800)] [entryJson (oneUnitGenesis unit)] := by
  obtain ⟨-, hread, hread', hbytes⟩ := oneUnitGenesis_facts
  have hunit : readEntries [entryJson (oneUnitGenesis unit)] = [oneUnitGenesis unit] ∧
      canonicalChainEntryBytes (oneUnitGenesis 0xD800) = canonicalChainEntryBytes (oneUnitGenesis unit) := by
    rcases h with rfl | rfl
    · exact ⟨hread, rfl⟩
    · exact ⟨hread', hbytes⟩
  intro e he e' he' b b' hb hb' _
  rw [hread] at he
  rw [hunit.1] at he'
  rw [List.mem_singleton.mp he, hunit.2] at hb
  rw [List.mem_singleton.mp he'] at hb'
  exact Option.some.inj (hb.symm.trans hb')

theorem oneUnitGenesis_not_textsKept : ¬ TextsKept [entryJson (oneUnitGenesis 0xD800)] := by
  intro hkept
  have hread : oneUnitGenesis 0xD800 ∈ readEntries [entryJson (oneUnitGenesis 0xD800)] := by
    rw [oneUnitGenesis_facts.2.1]
    exact List.mem_singleton_self _
  exact absurd (hkept _ hread [0xD800] List.mem_cons_self) (by decide)

set_option maxRecDepth 100000 in
theorem exampleChain_textsKept : TextsKept exampleChain := by
  unfold TextsKept
  decide +kernel

/-- A list is committed to by its head hash if the encoder keeps its texts, and only then. -/
theorem head_commitment (crypto : Crypto) (entries : List Json) (st : ChainState)
    (h : verifyChain crypto entries = .ok st) :
    (TextsKept entries → HeadCommits crypto entries st) ∧
      (HashesDistinct crypto entries entries → HeadCommits crypto entries st → TextsKept entries) :=
  ⟨headCommits_of_textsKept h, textsKept_of_headCommits h⟩

theorem head_commitment_example :
    (∃ st, verifyChain exampleCrypto exampleChain = .ok st ∧ HeadCommits exampleCrypto exampleChain st) ∧
      ∃ st, verifyChain oneUnitCrypto [entryJson (oneUnitGenesis 0xD800)] = .ok st ∧
        ¬ HeadCommits oneUnitCrypto [entryJson (oneUnitGenesis 0xD800)] st := by
  obtain ⟨st, h⟩ := exampleChain_verified
  obtain ⟨st', -, h', -⟩ := oneUnitGenesis_states
  refine ⟨⟨st, h, (head_commitment exampleCrypto exampleChain st h).1 exampleChain_textsKept⟩, st', h', ?_⟩
  exact mt ((head_commitment oneUnitCrypto _ st' h').2 (oneUnitGenesis_distinct (.inl rfl)))
    oneUnitGenesis_not_textsKept

/-- A lone surrogate and U+FFFD as user ids: one head hash, two owners. -/
theorem head_commitment_fails : ∃ st st', verifyChain oneUnitCrypto [entryJson (oneUnitGenesis 0xD800)] = .ok st ∧
    verifyChain oneUnitCrypto [entryJson (oneUnitGenesis 0xFFFD)] = .ok st' ∧
    HashesDistinct oneUnitCrypto [entryJson (oneUnitGenesis 0xD800)] [entryJson (oneUnitGenesis 0xFFFD)] ∧
    st.headHashHex = st'.headHashHex ∧ st ≠ st' := by
  obtain ⟨st, st', h, h', hhead, hne⟩ := oneUnitGenesis_states
  exact ⟨st, st', h, h', oneUnitGenesis_distinct (.inr rfl), hhead, hne⟩

end Maruhi.Chain
