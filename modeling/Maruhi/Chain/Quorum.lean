import Maruhi.Chain.Wire

/-!
# Four-eyes: where the votes of an applied operation come from

A pending proposal is told from every other by the seq of its propose entry. The invariant
traces it, and each of its votes, back to an entry of the list.
-/

open Run

namespace Maruhi.Chain

/-- The propose entry behind a pending proposal. -/
structure Proposed (crypto : Crypto) (entries : List Json) (q : PendingProposal) (k : Nat) : Prop where
  seq_eq : q.proposalSeq = k + 1
  entry : ∃ s entry s' p m d, EntryAt crypto entries k s entry q.proposalHashHex s' none ∧
    entry.operation = .propose p ∧ p.inner = q.inner ∧
    entry.actor = { userId := q.proposerUserId, keyFingerprintHex := q.proposerKeyFingerprintHex } ∧
    deviceOf s.members q.proposerUserId q.proposerKeyFingerprintHex = some (m, d) ∧
    q.proposerRoleAtProposal = (effectivePermissionOf m d.toDeviceCap).role

/-- An approve entry at position `k`, by this signer, of the proposal made at `proposalSeq`. -/
def Approved (crypto : Crypto) (entries : List Json) (proposalSeq : Nat) (vote : ApprovalVote) (k : Nat) : Prop :=
  ∃ s entry hash s' applied h q, EntryAt crypto entries k s entry hash s' applied ∧
    entry.operation = .approve h ∧
    entry.actor = { userId := vote.userId, keyFingerprintHex := vote.keyFingerprintHex } ∧
    s.pendingProposals.get? h = some q ∧ q.proposalSeq = proposalSeq

/-- A signature for the proposal: made with it under the owner role, or an approve of it. -/
inductive SignedFor (crypto : Crypto) (entries : List Json) (q : PendingProposal) (vote : ApprovalVote) (k : Nat) :
    Prop
  | proposer (h : Proposed crypto entries q k) (hrole : q.proposerRoleAtProposal = .owner)
      (huser : vote.userId = q.proposerUserId) (hfp : vote.keyFingerprintHex = q.proposerKeyFingerprintHex)
  | approver (h : Approved crypto entries q.proposalSeq vote k)

/-- The entry at `k` applies or withdraws the proposal made at `proposalSeq`. -/
def Closes (crypto : Crypto) (entries : List Json) (k proposalSeq : Nat) : Prop :=
  ∃ s entry hash s' applied h q, EntryAt crypto entries k s entry hash s' applied ∧
    s.pendingProposals.get? h = some q ∧ q.proposalSeq = proposalSeq ∧
    ((entry.operation = .approve h ∧ applied ≠ none) ∨ entry.operation = .withdraw h)

/-! ## The invariant -/

/-- After the first `n` entries, where every pending proposal and every vote on it come from. -/
structure Traced (crypto : Crypto) (entries : List Json) (n : Nat) (s : MutableChainState) : Prop where
  proposed : ∀ h q, s.pendingProposals.get? h = some q → ∃ k < n, Proposed crypto entries q k
  approved : ∀ h q, s.pendingProposals.get? h = some q → ∀ vote ∈ q.approvals,
    ∃ k < n, Approved crypto entries q.proposalSeq vote k

section Step
variable {crypto : Crypto} {entries : List Json} {n : Nat} {s s' : MutableChainState} {entry : ChainEntry}
  {hash : JsString} {applied : Option AppliedOperation}

/-- One seq, one hash: proposals made at the same seq are the same proposal. -/
theorem proposed_hash_eq {q q' : PendingProposal} {k k' : Nat} (h : Proposed crypto entries q k)
    (h' : Proposed crypto entries q' k') (hseq : q.proposalSeq = q'.proposalSeq) :
    q.proposalHashHex = q'.proposalHashHex := by
  have hk : k = k' := by have := h.seq_eq; have := h'.seq_eq; omega
  subst hk
  obtain ⟨_, _, _, _, _, _, hat, -⟩ := h.entry
  obtain ⟨_, _, _, _, _, _, hat', -⟩ := h'.entry
  exact (entryAt_unique hat hat').2.2.1

/-- Only an approve that applies and a withdraw close a proposal, and each takes it off. -/
theorem closes_removed (hat : EntryAt crypto entries n s entry hash s' applied)
    (h : Traced crypto entries n s) {t : Nat} (hclose : Closes crypto entries n t) :
    ∀ k q, s'.pendingProposals.get? k = some q → s.pendingProposals.get? k = some q ∧ q.proposalSeq ≠ t := by
  obtain ⟨s₀, entry₀, hash₀, s₀', applied₀, href, p, hat₀, hp, rfl, hhow⟩ := hclose
  obtain ⟨rfl, rfl, rfl, rfl, rfl⟩ := entryAt_unique hat₀ hat
  have hgone : ∀ k q, (s₀.pendingProposals.delete p.proposalHashHex).get? k = some q →
      s₀.pendingProposals.get? k = some q ∧ q.proposalSeq ≠ p.proposalSeq := by
    intro k q hq
    rw [OrderedMap.get?_delete] at hq
    split_ifs at hq with hne
    refine ⟨hq, fun heq => hne ?_⟩
    obtain ⟨_, -, hpq⟩ := h.proposed k q hq
    obtain ⟨_, -, hpp⟩ := h.proposed href p hp
    rw [← hat.keyed.pending k q hq]
    exact proposed_hash_eq hpq hpp heq
  have ht := hat.transition
  cases ht with
  | genesis _ hop => rcases hhow with ⟨ho, -⟩ | ho <;> rw [hop] at ho <;> cases ho
  | direct _ _ _ hop => rcases hhow with ⟨ho, -⟩ | ho <;> rw [hop] at ho <;> cases ho
  | proposed _ _ _ hop => rcases hhow with ⟨ho, -⟩ | ho <;> rw [hop] at ho <;> cases ho
  | voted _ _ _ _ hop =>
    rcases hhow with ⟨-, ha⟩ | ho
    · exact absurd rfl ha
    · rw [hop] at ho; cases ho
  | completed href' pending policy m d proposer device hop hactor howner hpending =>
    have hsame : href' = href := by
      rcases hhow with ⟨ho, -⟩ | ho <;> rw [hop] at ho <;> cases ho
      rfl
    rw [hsame, hp] at hpending
    cases hpending
    rw [pendingProposals_applyOperation]
    exact hgone
  | withdrawn href' pending m d hop hactor hpending =>
    have hsame : href' = href := by
      rcases hhow with ⟨ho, -⟩ | ho <;> rw [hop] at ho <;> cases ho
      rfl
    rw [hsame, hp] at hpending
    cases hpending
    exact hgone

theorem pending_step (hat : EntryAt crypto entries n s entry hash s' applied) {k : JsString} {q : PendingProposal}
    (hq : s'.pendingProposals.get? k = some q) :
    s.pendingProposals.get? k = some q ∨
      (∃ old m d, s.pendingProposals.get? k = some old ∧ entry.operation = .approve k ∧
        deviceOf s.members entry.actor.userId entry.actor.keyFingerprintHex = some (m, d) ∧
        q = withVote old (voteOf (actorContextOf m d))) ∨
      ∃ p m d, entry.operation = .propose p ∧ applied = none ∧ k = hash ∧
        deviceOf s.members entry.actor.userId entry.actor.keyFingerprintHex = some (m, d) ∧
        q = proposalOf (n + 1) p hash m d := by
  have hdelete : ∀ gone : JsString, (s.pendingProposals.delete gone).get? k = some q →
      s.pendingProposals.get? k = some q := by
    intro gone hget
    rw [OrderedMap.get?_delete] at hget
    split_ifs at hget
    exact hget
  have hseq := hat.seq_eq
  have ht := hat.transition
  cases ht with
  | genesis p hop => exact Or.inl hq
  | direct op m d hop hgenesis auth htarget =>
    rw [pendingProposals_applyOperation] at hq
    exact Or.inl hq
  | proposed p m d hop auth htarget =>
    have hq := (OrderedMap.get?_set _ _ _ _).symm.trans hq
    split_ifs at hq with hk
    · cases hq
      exact Or.inr (Or.inr ⟨p, m, d, hop, rfl, hk, auth.device, by rw [hseq]⟩)
    · exact Or.inl hq
  | voted href pending m d hop hactor howner hpending hvote =>
    have hq := (OrderedMap.get?_set _ _ _ _).symm.trans hq
    split_ifs at hq with hk
    · cases hq
      exact Or.inr (Or.inl ⟨pending, m, d, hk ▸ hpending, hk ▸ hop, hactor, rfl⟩)
    · exact Or.inl hq
  | completed href pending policy m d proposer device hop =>
    rw [pendingProposals_applyOperation] at hq
    exact Or.inl (hdelete _ hq)
  | withdrawn href pending m d hop => exact Or.inl (hdelete _ hq)

theorem actor_eq (hat : EntryAt crypto entries n s entry hash s' applied) {m : ChainMember} {d : ChainDevice}
    (hdev : deviceOf s.members entry.actor.userId entry.actor.keyFingerprintHex = some (m, d)) :
    m.userId = entry.actor.userId ∧ d.keyFingerprintHex = entry.actor.keyFingerprintHex := by
  obtain ⟨hm, hd⟩ := deviceOf_eq_some.mp hdev
  exact ⟨hat.keyed.member _ _ hm, (hat.keyed.device _ _ _ _ hm hd).1⟩

theorem traced_step (hat : EntryAt crypto entries n s entry hash s' applied) (h : Traced crypto entries n s) :
    Traced crypto entries (n + 1) s' := by
  have hlater : ∀ {P : Nat → Prop}, (∃ k < n, P k) → ∃ k < n + 1, P k :=
    fun ⟨k, hk, hP⟩ => ⟨k, Nat.lt_succ_of_lt hk, hP⟩
  refine ⟨?_, ?_⟩
  · intro k q hq
    rcases pending_step hat hq with hq | ⟨old, m, d, hold, -, -, rfl⟩ | ⟨p, m, d, hop, rfl, rfl, hdev, rfl⟩
    · exact hlater (h.proposed k q hq)
    · obtain ⟨i, hi, hprop⟩ := h.proposed k old hold
      exact ⟨i, Nat.lt_succ_of_lt hi, hprop.seq_eq, hprop.entry⟩
    · obtain ⟨huser, hfp⟩ := actor_eq hat hdev
      refine ⟨n, Nat.lt_succ_self n, rfl, s, entry, s', p, m, d, hat, hop, rfl, ?_, ?_, rfl⟩
      · simp only [proposalOf, huser, hfp]
      · simp only [proposalOf, huser, hfp]; exact hdev
  · intro k q hq vote hvote
    rcases pending_step hat hq with hq | ⟨old, m, d, hold, hop, hdev, rfl⟩ | ⟨p, m, d, hop, rfl, rfl, hdev, rfl⟩
    · exact hlater (h.approved k q hq vote hvote)
    · simp only [withVote, List.mem_append, List.mem_singleton] at hvote
      rcases hvote with hvote | rfl
      · exact hlater (h.approved k old hold vote hvote)
      · obtain ⟨huser, hfp⟩ := actor_eq hat hdev
        exact ⟨n, Nat.lt_succ_self n, s, entry, hash, s', applied, k, old, hat, hop,
          by simp only [voteOf, actorContextOf, huser, hfp], hold, rfl⟩
    · simp [proposalOf] at hvote

end Step

theorem traced_of_stateAfter {crypto : Crypto} {entries : List Json} {n : Nat} (hn : n ≤ entries.length)
    {s : MutableChainState} (hs : stateAfter crypto (entries.take n) = some s) : Traced crypto entries n s :=
  entry_induction (a := 0) (stateAfter_nil crypto) (P := Traced crypto entries)
    ⟨fun _ _ h => (nomatch h), fun _ _ h => (nomatch h)⟩
    (fun _ _ _ _ _ _ _ _ hat h => traced_step hat h) (Nat.zero_le n) hn hs

section At
variable {crypto : Crypto} {entries : List Json} {n : Nat} {s s' : MutableChainState} {entry : ChainEntry}
  {hash : JsString} {applied : Option AppliedOperation}

theorem EntryAt.traced (h : EntryAt crypto entries n s entry hash s' applied) : Traced crypto entries n s :=
  traced_of_stateAfter h.lt_length.le h.before

end At

/-! ## Nothing is closed twice -/

section Closes
variable {crypto : Crypto} {entries : List Json}

theorem closes_le {k t : Nat} (h : Closes crypto entries k t) : t ≤ k := by
  obtain ⟨s, entry, hash, s', applied, href, q, hat, hq, rfl, -⟩ := h
  obtain ⟨i, hi, hprop⟩ := hat.traced.proposed href q hq
  rw [hprop.seq_eq]
  exact hi

theorem closed_not_pending {k t : Nat} (h : Closes crypto entries k t) {n : Nat} (hkn : k < n)
    (hn : n ≤ entries.length) {s : MutableChainState} (hs : stateAfter crypto (entries.take n) = some s) :
    ∀ i q, s.pendingProposals.get? i = some q → q.proposalSeq ≠ t := by
  have hclose := h
  obtain ⟨s₀, entry₀, hash₀, s₁, applied₀, -, -, hat, -⟩ := hclose
  refine entry_induction hat.after (P := fun _ s => ∀ i q, s.pendingProposals.get? i = some q → q.proposalSeq ≠ t)
    ?_ ?_ hkn hn hs
  · exact fun i q hq => (closes_removed hat hat.traced h i q hq).2
  · intro n s entry hash s' applied hkn hn hat ih i q hq
    rcases pending_step hat hq with hq | ⟨old, m, d, hold, -, -, rfl⟩ | ⟨p, m, d, -, -, -, -, rfl⟩
    · exact ih i q hq
    · exact ih i old hold
    · -- What closed at `k` was proposed by `k`, this one only now.
      have := closes_le h
      simp only [proposalOf]
      omega

theorem closes_unique {k k' t : Nat} (h : Closes crypto entries k t) (h' : Closes crypto entries k' t) : k = k' := by
  have hle : ∀ {a b : Nat}, Closes crypto entries a t → Closes crypto entries b t → ¬ a < b := by
    intro a b ha hb hab
    obtain ⟨s, entry, hash, s', applied, href, q, hat, hq, hseq, -⟩ := hb
    exact closed_not_pending ha hab hat.lt_length.le hat.before href q hq hseq
  have := hle h h'
  have := hle h' h
  omega

end Closes

/-! ## The quorum behind an applied target -/

/-- A voter's user id, with a device of theirs that signed and still carries the owner role. -/
def OwnerSigned (crypto : Crypto) (entries : List Json) (n : Nat) (s : MutableChainState) (q : PendingProposal)
    (u : UserId) : Prop :=
  ∃ fp m d, deviceOf s.members u fp = some (m, d) ∧ (effectivePermissionOf m d.toDeviceCap).role = .owner ∧
    ∃ k ≤ n, SignedFor crypto entries q { userId := u, keyFingerprintHex := fp } k

theorem mem_ownerVotersOf {members : OrderedMap UserId ChainMember} {signers : List ApprovalVote} {u : UserId}
    (h : u ∈ (ownerVotersOf members signers).keys) :
    ∃ signer ∈ signers, signer.userId = u ∧ ∃ m d,
      deviceOf members signer.userId signer.keyFingerprintHex = some (m, d) ∧
        (effectivePermissionOf m d.toDeviceCap).role = .owner := by
  obtain ⟨signer, hsigner, hu⟩ := List.mem_map.mp ((OrderedMap.mem_keys_setOf _ _).mp h)
  obtain ⟨hmem, hcount⟩ := List.mem_filter.mp hsigner
  refine ⟨signer, hmem, hu, ?_⟩
  unfold countableVote at hcount
  split at hcount
  · rename_i m d hdev
    exact ⟨m, d, hdev, by simpa using hcount⟩
  · cases hcount

/-- Every counted signature on a pending proposal was made for it. -/
theorem signedFor_of_signer {crypto : Crypto} {entries : List Json} {n : Nat} {s : MutableChainState}
    (h : Traced crypto entries n s) {href : JsString} {q : PendingProposal}
    (hq : s.pendingProposals.get? href = some q) {signer : ApprovalVote} (hsigner : signer ∈ approvalSignersOf q) :
    ∃ k < n, SignedFor crypto entries q signer k := by
  rcases List.mem_append.mp hsigner with hproposer | happroval
  · split_ifs at hproposer with hrole
    · obtain ⟨k, hk, hprop⟩ := h.proposed href q hq
      rw [List.mem_singleton.mp hproposer]
      exact ⟨k, hk, .proposer hprop hrole rfl rfl⟩
    · cases hproposer
  · obtain ⟨k, hk, happ⟩ := h.approved href q hq signer happroval
    exact ⟨k, hk, .approver happ⟩

/-- Four-eyes: an applied target is the inner operation of a pending proposal, signed by the quorum of
owners, and no proposal is applied or withdrawn twice, nor applied after a withdraw. -/
theorem quorum_authenticity (crypto : Crypto) (entries : List Json) (st : ChainState)
    (h : verifyChain crypto entries = .ok st) :
    (∀ n < entries.length, ∃ s entry hash s' applied, EntryAt crypto entries n s entry hash s' applied ∧
      ∀ op, applied = some op → isApprovalTarget op.operation s.approvalPolicy = true →
        ∃ href pending policy, ∃ voters : List UserId, entry.operation = .approve href ∧
          s.pendingProposals.get? href = some pending ∧ op.operation = pending.inner ∧
          s.approvalPolicy = some policy ∧ voters.Nodup ∧ policy.requiredApprovals ≤ voters.length ∧
          ∀ u ∈ voters, OwnerSigned crypto entries n s pending u) ∧
      ∀ k k' t, Closes crypto entries k t → Closes crypto entries k' t → k = k' := by
  refine ⟨fun n hn => ?_, fun k k' t => closes_unique⟩
  obtain ⟨s, entry, hash, s', applied, hat⟩ := entryAt_of_verifyChain h hn
  refine ⟨s, entry, hash, s', applied, hat, fun op happlied htarget => ?_⟩
  have ht := hat.transition
  cases ht with
  | genesis p hop =>
    cases happlied
    obtain ⟨-, rfl⟩ := hat.genesis hop
    cases htarget
  | direct operation m d hop hgenesis auth hnot =>
    cases happlied
    rw [hnot] at htarget
    cases htarget
  | proposed p m d hop => cases happlied
  | voted href pending m d hop => cases happlied
  | withdrawn href pending m d hop => cases happlied
  | completed href pending policy m d proposer device hop hactor howner hpending hvote hpolicy hquorum auth =>
    cases happlied
    let voters := ownerVotersOf s.members (approvalSignersOf pending ++ [voteOf (actorContextOf m d)])
    refine ⟨href, pending, policy, voters.keys, hop, hpending, rfl, hpolicy, voters.keys_nodup, ?_, fun u hu => ?_⟩
    · rw [OrderedMap.length_keys]
      exact hquorum
    · obtain ⟨signer, hsigner, rfl, x, e, hdev, hrole⟩ := mem_ownerVotersOf hu
      refine ⟨signer.keyFingerprintHex, x, e, hdev, hrole, ?_⟩
      rcases List.mem_append.mp hsigner with hsigner | hsigner
      · obtain ⟨k, hk, hsigned⟩ := signedFor_of_signer hat.traced hpending hsigner
        exact ⟨k, hk.le, hsigned⟩
      · obtain ⟨huser, hfp⟩ := actor_eq hat hactor
        rw [List.mem_singleton.mp hsigner]
        exact ⟨n, le_refl n, .approver ⟨s, entry, hash, _, _, href, pending, hat, hop,
          by simp only [voteOf, actorContextOf, huser, hfp], hpending, rfl⟩⟩

theorem quorum_authenticity_example : ∃ s entry hash s' applied, EntryAt exampleCrypto exampleChain 5 s entry hash s' applied ∧
    ∀ op, applied = some op → isApprovalTarget op.operation s.approvalPolicy = true →
      ∃ href pending policy, ∃ voters : List UserId, entry.operation = .approve href ∧
        s.pendingProposals.get? href = some pending ∧ op.operation = pending.inner ∧
        s.approvalPolicy = some policy ∧ voters.Nodup ∧ policy.requiredApprovals ≤ voters.length ∧
        ∀ u ∈ voters, OwnerSigned exampleCrypto exampleChain 5 s pending u := by
  obtain ⟨st, h⟩ := exampleChain_verified
  exact (quorum_authenticity _ _ st h).1 5 (by decide)

end Maruhi.Chain
