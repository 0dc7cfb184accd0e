import Mathlib.Data.List.Dedup
import Maruhi.Chain.Owners
import Maruhi.Chain.Quorum

/-!
# Policy monotonicity

Fewer owners than the policy asks for can neither apply a target operation nor, through any other,
change the policy or make an owner.
-/

open Run

namespace Maruhi.Chain

def signerOf (j : Json) : Option UserId := (checkPayloadShape j).map fun entry => entry.actor.userId

/-- The people of `people` who sign an entry of the list. -/
def signersAmong (people : List UserId) (entries : List Json) : List UserId :=
  ((entries.filterMap signerOf).filter fun u => people.contains u).dedup

/-- What a direct entry applies under a policy makes no owner and keeps the policy. -/
theorem not_target_of_policy {op : ProposableOperation} {policy : ApprovalPolicy}
    (h : isApprovalTarget op (some policy) = false) :
    isSetApprovalPolicy op = false ∧ establishesOwner op = false := by
  unfold isApprovalTarget at h
  dsimp only at h
  split_ifs at h with hop
  simpa using hop

/-! ## The invariant -/

/-- The policy stands, no owner is new, and every signature on a proposal is one of `signers`. -/
structure PolicyHeld (policy : ApprovalPolicy) (people signers : List UserId) (s : MutableChainState) : Prop where
  policy : s.approvalPolicy = some policy
  owners : ∀ u ∈ owners s, u ∈ people
  signed : ∀ h q, s.pendingProposals.get? h = some q → ∀ signer ∈ approvalSignersOf q, signer.userId ∈ signers

section Step
variable {crypto : Crypto} {policy : ApprovalPolicy} {people signers : List UserId} {s : MutableChainState}

theorem policyHeld_withPending (h : PolicyHeld policy people signers s) {pending : OrderedMap JsString PendingProposal}
    (hsigned : ∀ k q, pending.get? k = some q → ∀ signer ∈ approvalSignersOf q, signer.userId ∈ signers) :
    PolicyHeld policy people signers (withPending s pending) :=
  ⟨h.policy, h.owners, hsigned⟩

theorem policyHeld_delete (h : PolicyHeld policy people signers s) (gone : JsString) :
    PolicyHeld policy people signers (withPending s (s.pendingProposals.delete gone)) := by
  refine policyHeld_withPending h fun k q hq => ?_
  rw [OrderedMap.get?_delete] at hq
  split_ifs at hq
  exact h.signed k q hq

theorem policyHeld_set (h : PolicyHeld policy people signers s) (href : JsString) {q : PendingProposal}
    (hq : ∀ signer ∈ approvalSignersOf q, signer.userId ∈ signers) :
    PolicyHeld policy people signers (withPending s (s.pendingProposals.set href q)) := by
  refine policyHeld_withPending h fun k q' hq' => ?_
  rw [OrderedMap.get?_set] at hq'
  split_ifs at hq'
  · cases hq'; exact hq
  · exact h.signed k q' hq'

theorem policyHeld_apply (hk : WellKeyed crypto s) (h : PolicyHeld policy people signers s)
    {op : ProposableOperation} {u : UserId} {fp : KeyFingerprintHex} {m : ChainMember} {d : ChainDevice}
    (auth : Authorized crypto s op u fp m d) (seq : Nat) (htarget : isApprovalTarget op s.approvalPolicy = false) :
    PolicyHeld policy people signers (applyOperation crypto op s seq m.userId) := by
  rw [h.policy] at htarget
  obtain ⟨hset, howner⟩ := not_target_of_policy htarget
  refine ⟨?_, fun v hv => h.owners v (owner_of_apply hk auth seq howner hv), ?_⟩
  · rw [approvalPolicy_applyOperation s seq m.userId hset]; exact h.policy
  · rw [pendingProposals_applyOperation]; exact h.signed

theorem countOwnerVotes_le (h : PolicyHeld policy people signers s) (votes : List ApprovalVote)
    (hvotes : ∀ vote ∈ votes, vote.userId ∈ signers) :
    countOwnerVotes s votes ≤ (signers.filter fun u => people.contains u).dedup.length := by
  rw [countOwnerVotes, ← OrderedMap.length_keys]
  refine (List.subperm_of_subset (OrderedMap.keys_nodup _) fun u hu => ?_).length_le
  obtain ⟨signer, hsigner, rfl, m, d, hdev, hrole⟩ := mem_ownerVotersOf hu
  have howner : signer.userId ∈ owners s :=
    mem_owners.mpr ⟨m, (deviceOf_eq_some.mp hdev).1, ((effectiveRole_owner_iff m d.toDeviceCap).mp hrole).1⟩
  rw [List.mem_dedup, List.mem_filter, List.contains_iff_mem]
  exact ⟨hvotes signer hsigner, h.owners _ howner⟩

theorem policyHeld_step {entries : List Json} {n : Nat} {s' : MutableChainState} {entry : ChainEntry} {hash : JsString}
    {applied : Option AppliedOperation} (hat : EntryAt crypto entries n s entry hash s' applied)
    (h : PolicyHeld policy people signers s) (hsigner : entry.actor.userId ∈ signers)
    (hfew : (signers.filter fun u => people.contains u).dedup.length < policy.requiredApprovals) :
    (∀ op, applied = some op → isApprovalTarget op.operation s.approvalPolicy = false) ∧
      PolicyHeld policy people signers s' := by
  have hvoter : ∀ {m d}, deviceOf s.members entry.actor.userId entry.actor.keyFingerprintHex = some (m, d) →
      (voteOf (actorContextOf m d)).userId ∈ signers := by
    intro m d hdev
    simp only [voteOf, actorContextOf, (actor_eq hat hdev).1]
    exact hsigner
  have ht := hat.transition
  cases ht with
  | genesis p hop =>
    obtain ⟨-, rfl⟩ := hat.genesis hop
    exact absurd h.policy (by simp [MutableChainState.initial])
  | direct op m d hop hgenesis auth htarget =>
    refine ⟨fun op' hop' => ?_, policyHeld_apply hat.keyed h auth _ htarget⟩
    cases hop'
    exact htarget
  | proposed p m d hop auth htarget =>
    refine ⟨fun _ hnone => (by cases hnone), policyHeld_set h hash fun signer hs => ?_⟩
    rcases List.mem_append.mp hs with hs | hs
    · split_ifs at hs with hrole
      · rw [List.mem_singleton.mp hs]
        exact hvoter auth.device
      · cases hs
    · cases hs
  | voted href pending m d hop hactor howner hpending hvote =>
    refine ⟨fun _ hnone => (by cases hnone), policyHeld_set h href fun signer hs => ?_⟩
    rw [show approvalSignersOf (withVote pending (voteOf (actorContextOf m d))) =
      approvalSignersOf pending ++ [voteOf (actorContextOf m d)] from (List.append_assoc _ _ _).symm] at hs
    rcases List.mem_append.mp hs with hs | hs
    · exact h.signed href pending hpending signer hs
    · rw [List.mem_singleton.mp hs]
      exact hvoter hactor
  | completed href pending policy' m d proposer device hop hactor howner hpending hvote hpolicy hquorum auth =>
    -- A completed proposal would have a quorum of the few.
    exfalso
    rw [h.policy] at hpolicy
    cases hpolicy
    have hle := countOwnerVotes_le h (approvalSignersOf pending ++ [voteOf (actorContextOf m d)]) ?_
    · omega
    · intro vote hv
      rcases List.mem_append.mp hv with hv | hv
      · exact h.signed href pending hpending vote hv
      · rw [List.mem_singleton.mp hv]
        exact hvoter hactor
  | withdrawn href pending m d hop => exact ⟨fun _ hnone => (by cases hnone), policyHeld_delete h _⟩

end Step

/-! ## Extensions -/

/-- From an active policy with nothing pending, an extension that fewer of the owners sign than it
requires applies no target operation, keeps the policy and makes no owner. -/
theorem policy_monotonicity (crypto : Crypto) (base ext : List Json) (st : ChainState) (s₀ : MutableChainState)
    (policy : ApprovalPolicy) (hbase : stateAfter crypto base = some s₀)
    (hext : verifyChain crypto (base ++ ext) = .ok st) (hpolicy : s₀.approvalPolicy = some policy)
    (hpending : s₀.pendingProposals = .empty)
    (hfew : (signersAmong (owners s₀) ext).length < policy.requiredApprovals) :
    ∀ n, base.length ≤ n → n < (base ++ ext).length → ∃ s entry hash s' applied,
      EntryAt crypto (base ++ ext) n s entry hash s' applied ∧
        (∀ op, applied = some op → isApprovalTarget op.operation s.approvalPolicy = false) ∧
        s'.approvalPolicy = some policy ∧ ∀ u ∈ owners s', u ∈ owners s₀ := by
  have hsigner : ∀ {n s entry hash s' applied}, base.length ≤ n →
      EntryAt crypto (base ++ ext) n s entry hash s' applied → entry.actor.userId ∈ ext.filterMap signerOf := by
    intro n s entry hash s' applied hn hat
    obtain ⟨j, hj, hshape⟩ := hat.read
    rw [List.getElem?_append_right hn] at hj
    exact List.mem_filterMap.mpr ⟨j, List.mem_of_getElem? hj, by rw [signerOf, hshape]; rfl⟩
  have h0 : PolicyHeld policy (owners s₀) (ext.filterMap signerOf) s₀ :=
    ⟨hpolicy, fun _ hu => hu, fun k q hq => by rw [hpending] at hq; cases hq⟩
  have hheld : ∀ n s, base.length ≤ n → n ≤ (base ++ ext).length →
      stateAfter crypto ((base ++ ext).take n) = some s → PolicyHeld policy (owners s₀) (ext.filterMap signerOf) s :=
    fun n s hbn hn hs => entry_induction (stateAfter_append hbase)
      (P := fun _ => PolicyHeld policy (owners s₀) (ext.filterMap signerOf)) h0
      (fun _ _ _ _ _ _ han _ hat h => (policyHeld_step hat h (hsigner han hat) hfew).2) hbn hn hs
  intro n hbn hn
  obtain ⟨s, entry, hash, s', applied, hat⟩ := entryAt_of_verifyChain hext hn
  obtain ⟨htarget, hnext⟩ := policyHeld_step hat (hheld n s hbn hn.le hat.before) (hsigner hbn hat) hfew
  exact ⟨s, entry, hash, s', applied, hat, htarget, hnext.policy, hnext.owners⟩

set_option maxRecDepth 100000 in
theorem exampleChain_policy : (stateAfter exampleCrypto (exampleChain.take 4)).any (fun s =>
    s.approvalPolicy = some ⟨[.grantServer], 2⟩ && decide (s.pendingProposals = .empty) &&
      decide ((signersAmong (owners s) ((exampleChain.drop 4).take 1)).length < 2)) = true := by
  rw [exampleCrypto_eq exampleDigests]
  decide +kernel

theorem policy_monotonicity_example : ∃ s entry hash s' applied,
    EntryAt exampleCrypto (exampleChain.take 4 ++ (exampleChain.drop 4).take 1) 4 s entry hash s' applied ∧
      (∀ op, applied = some op → isApprovalTarget op.operation s.approvalPolicy = false) ∧
      s'.approvalPolicy = some ⟨[.grantServer], 2⟩ := by
  obtain ⟨st, h⟩ := exampleChain_verified
  obtain ⟨st', h'⟩ := verifyChain_take h (n := 5) (by decide)
  obtain ⟨s₀, hbase, hfacts⟩ := (Option.any_eq_true _ _).mp exampleChain_policy
  simp only [Bool.and_eq_true, decide_eq_true_eq] at hfacts
  obtain ⟨⟨hpolicy, hpending⟩, hfew⟩ := hfacts
  obtain ⟨s, entry, hash, s', applied, hat, htarget, hkept, -⟩ := policy_monotonicity _ _ _ st' s₀ _ hbase
    (by rw [← List.take_add]; exact h') hpolicy hpending hfew 4 (by decide) (by decide)
  exact ⟨s, entry, hash, s', applied, hat, htarget, hkept⟩

end Maruhi.Chain
