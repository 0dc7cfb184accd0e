import Maruhi.Chain.Bindings
import Maruhi.Gossip.Attestation

/-!
# Reconciled attestations are of the reconciled chain

An honest server is never accused.
-/

open Text Run

namespace Maruhi.Gossip

open Chain Signing

variable {crypto : Crypto}

/-! ## Keys that do not collide -/

theorem append_unit_inj {c : UInt16} {s s' t t' : JsString} (ht : c ∉ t) (ht' : c ∉ t')
    (h : s ++ c :: t = s' ++ c :: t') : s = s' ∧ t = t' := by
  rcases List.append_eq_append_iff.mp h with ⟨mid, hs, hrest⟩ | ⟨mid, hs, hrest⟩
  · cases mid with
    | nil => exact ⟨by simpa using hs.symm, by simpa using hrest⟩
    | cons unit mid =>
      simp only [List.cons_append, List.cons.injEq] at hrest
      exact absurd (hrest.2 ▸ List.mem_append_right _ List.mem_cons_self) ht
  · cases mid with
    | nil => exact ⟨by simpa using hs, by simpa using hrest.symm⟩
    | cons unit mid =>
      simp only [List.cons_append, List.cons.injEq] at hrest
      exact absurd (hrest.2 ▸ List.mem_append_right _ List.mem_cons_self) ht'

theorem decodeHex_digits (s : JsString) (bytes : Bytes) (h : decodeHex s = some bytes) :
    ∀ u ∈ s, (hexValue? u).isSome = true := by
  induction s using decodeHex.induct generalizing bytes with
  | case1 => exact fun u hu => by cases hu
  | case2 => simp [decodeHex] at h
  | case3 u v rest ih =>
    simp only [decodeHex, Option.bind_eq_bind, Option.bind_eq_some_iff] at h
    obtain ⟨high, hhigh, low, hlow, tail, htail, -⟩ := h
    intro w hw
    rcases List.mem_cons.mp hw with rfl | hw
    · exact Option.isSome_of_eq_some hhigh
    · rcases List.mem_cons.mp hw with rfl | hw
      · exact Option.isSome_of_eq_some hlow
      · exact ih tail htail w hw

theorem hexText_no_mark {bytes : Nat} {s : JsString} (h : isHexText bytes s = true) : (35 : UInt16) ∉ s := by
  unfold isHexText at h
  simp only [Bool.and_eq_true] at h
  intro hm
  cases hdecoded : decodeHex s with
  | none => rw [hdecoded] at h; exact absurd h.2 Bool.false_ne_true
  | some decoded => exact absurd (decodeHex_digits s decoded hdecoded 35 hm) (by decide)

theorem decimal_no_mark (n : Nat) : (35 : UInt16) ∉ decimal n := fun hm => by
  have := decimal_unit n 35 hm
  simp at this

theorem wireKey_inj {a b : DistributedAttestation} (h : wireKey a = wireKey b) : a = b := by
  unfold wireKey at h
  simp only [show lit "#" = [35] from rfl, ← List.append_cons] at h
  obtain ⟨h, hsignature⟩ := append_unit_inj (hexText_no_mark a.signature) (hexText_no_mark b.signature) h
  obtain ⟨h, hseq⟩ := append_unit_inj (decimal_no_mark _) (decimal_no_mark _) h
  obtain ⟨h, hhash⟩ := append_unit_inj (hexText_no_mark a.hash) (hexText_no_mark b.hash) h
  obtain ⟨h, hfp⟩ := append_unit_inj (hexText_no_mark a.fingerprint) (hexText_no_mark b.fingerprint) h
  have huser : a.attesterUserId = b.attesterUserId := (List.cons.inj (List.append_cancel_left h)).2
  have hseq := decimal_inj hseq
  cases a
  cases b
  simp_all

theorem mem_firstOfEachKey {l : List DistributedAttestation} {seen : List JsString} {a : DistributedAttestation}
    (hm : a ∈ l) (hseen : wireKey a ∉ seen) : a ∈ firstOfEachKey seen l := by
  induction l generalizing seen with
  | nil => cases hm
  | cons first rest ih =>
    unfold firstOfEachKey
    rcases List.mem_cons.mp hm with rfl | hm
    · simp [hseen]
    · dsimp only
      split
      · exact ih hm hseen
      · by_cases hkey : wireKey a = wireKey first
        · rw [wireKey_inj hkey]
          exact List.mem_cons_self
        · refine List.mem_cons_of_mem _ (ih hm ?_)
          simp [hkey, hseen]

/-! ## Classification -/

structure Sorted (crypto : Crypto) (view : VerifiedProject) (attestations : List DistributedAttestation)
    (classified : Classified) : Prop where
  matched : ∀ a ∈ attestations, ∃ outcome, matchAttestation crypto view a = some outcome ∧
    (outcome = .mismatch → a ∈ classified.evidence) ∧ (outcome = .future → a ∈ classified.future)

theorem classifyAll_sorted {view : VerifiedProject} {attestations : List DistributedAttestation} {classified : Classified}
    (h : classifyAll crypto view attestations = some classified) : Sorted crypto view attestations classified := by
  induction attestations using List.reverseRecOn generalizing classified with
  | nil => exact ⟨fun a hm => by cases hm⟩
  | append_singleton init last ih =>
    unfold classifyAll at h
    rw [List.foldlM_append] at h
    obtain ⟨before, hbefore, hlast⟩ := Option.bind_eq_some_iff.mp h
    simp only [List.foldlM_cons, List.foldlM_nil, Option.bind_eq_bind, Option.bind_eq_some_iff, Option.map_eq_some_iff,
      Option.pure_def, Option.some.injEq] at hlast
    obtain ⟨_, ⟨outcome, houtcome, rfl⟩, rfl⟩ := hlast
    refine ⟨fun a hm => ?_⟩
    rcases List.mem_append.mp hm with hm | hm
    · obtain ⟨o, ho, hmis, hfut⟩ := (ih hbefore).matched a hm
      refine ⟨o, ho, fun hout => ?_, fun hout => ?_⟩
      · have hold := hmis hout
        cases outcome <;> simp [Classified.push, hold]
      · have hold := hfut hout
        cases outcome <;> simp [Classified.push, hold]
    · rw [List.mem_singleton.mp hm]
      refine ⟨outcome, houtcome, ?_, ?_⟩ <;> rintro rfl <;> simp [Classified.push]

theorem classifyAll_from {view : VerifiedProject} {attestations : List DistributedAttestation} {classified : Classified}
    (h : classifyAll crypto view attestations = some classified)
    (hnone : ∀ a ∈ attestations, ∀ outcome, matchAttestation crypto view a = some outcome →
      outcome ≠ .mismatch ∧ outcome ≠ .future) : classified.evidence = [] ∧ classified.future = [] := by
  induction attestations using List.reverseRecOn generalizing classified with
  | nil =>
    cases h
    exact ⟨rfl, rfl⟩
  | append_singleton init last ih =>
    unfold classifyAll at h
    rw [List.foldlM_append] at h
    obtain ⟨before, hbefore, hlast⟩ := Option.bind_eq_some_iff.mp h
    simp only [List.foldlM_cons, List.foldlM_nil, Option.bind_eq_bind, Option.bind_eq_some_iff, Option.map_eq_some_iff,
      Option.pure_def, Option.some.injEq] at hlast
    obtain ⟨_, ⟨outcome, houtcome, rfl⟩, rfl⟩ := hlast
    have hempty := ih hbefore fun a hm => hnone a (List.mem_append_left _ hm)
    obtain ⟨hmismatch, hfuture⟩ := hnone last (by simp) outcome houtcome
    cases outcome with
    | mismatch => exact absurd rfl hmismatch
    | future => exact absurd rfl hfuture
    | ok => exact hempty
    | skip => exact hempty

/-! ## Views -/

/-- The key of a device that the view shows as the user's at its head. -/
def HoldsDevice (view : VerifiedProject) (userId : UserId) (keyFingerprintHex : KeyFingerprintHex) (sigPubHex : JsString) :
    Prop :=
  ∃ member device, view.history.memberStateAt userId view.state.headSeq = some member ∧
    member.devices.get? keyFingerprintHex = some device ∧ device.sigPubHex = sigPubHex

/-- The attestation is signed with the key. -/
def ValidlySigned (crypto : Crypto) (projectId : JsString) (a : DistributedAttestation) (sigPubHex : JsString) : Prop :=
  ∃ keyBytes publicKey, decodeHex sigPubHex = some keyBytes ∧
    (importSigningPublicKey keyBytes : Except AttestationFailure Bytes) = .ok publicKey ∧
    verifyHeadAttestationSignature crypto (contextOf projectId a) a.signatureHex publicKey = .ok ()

/-- The view names the attested pair. -/
def NamesHead (view : VerifiedProject) (a : DistributedAttestation) : Prop :=
  view.history.entryHashAt a.chainHeadSeq = some a.chainHeadHashHex

theorem snapshot_ok {projectId : JsString} {response : ChainResponse} {view : VerifiedProject}
    (h : verifyChainSnapshot crypto projectId response = .ok view) :
    verifyChainWithHistory crypto response.entries = .ok (view.state, view.history) ∧ view.projectId = projectId ∧
      view.entries = response.entries ∧ view.attestations = response.attestations := by
  unfold verifyChainSnapshot at h
  split at h
  · cases h
  · rename_i state history hverify
    split at h
    · cases h
    · split at h
      · cases h
      · split_ifs at h
        cases h
        exact ⟨hverify, rfl, rfl, rfl⟩

theorem sigKey_of_holds {projectId : JsString} {response : ChainResponse} {view : VerifiedProject}
    (h : verifyChainSnapshot crypto projectId response = .ok view) (hdistinct : FingerprintsDistinct crypto response.entries)
    {u : UserId} {fp : KeyFingerprintHex} {key : JsString} (hheld : HoldsDevice view u fp key) :
    view.history.sigKeyByFingerprint u fp = some key := by
  obtain ⟨hverify, -⟩ := snapshot_ok h
  obtain ⟨history, hindex, hbound⟩ := verified_bound hverify hdistinct
  obtain ⟨member, device, hmember, hdevice, rfl⟩ := hheld
  unfold ChainHistoryIndex.memberStateAt ChainHistoryIndex.tenureAt at hmember
  simp only [Option.bind_eq_bind, Option.bind_eq_some_iff, Option.pure_def, Option.some.injEq] at hmember
  obtain ⟨tenure, htenure, span, -, rfl⟩ := hmember
  split_ifs at htenure with hrange
  have htenure := List.mem_of_find?_eq_some htenure
  have hentry := OrderedMap.mem_of_get?_ofEntries hdevice
  obtain ⟨record, hrecord, heq⟩ := List.mem_map.mp hentry
  cases heq
  rw [deviceAt_sigPubHex]
  rw [hindex] at htenure ⊢
  exact sigKey_of_record hbound hdistinct htenure (List.mem_filter.mp hrecord).1

/-- What is left of a verification once the signature has verified. -/
def afterSignature (crypto : Crypto) (history : ChainHistoryIndex) (context : HeadAttestationContext)
    (attesterKeyFingerprintHex : KeyFingerprintHex) : Except AttestationFailure JsString := do
  stopAt ((headAuthorizationReason history context.chainHeadSeq context.chainHeadHashHex context.attesterUserId
    attesterKeyFingerprintHex .reader none).map fun reason => .invalid (headAttestationReason reason))
  hashHexOf crypto (buildHeadAttestationSignedBytes context)

theorem contextInvalidField_of_verified {context : HeadAttestationContext} {signatureHex : JsString} {publicKey : Bytes}
    (h : verifyHeadAttestationSignature crypto context signatureHex publicKey = .ok ()) : contextInvalidField context = none := by
  unfold verifyHeadAttestationSignature at h
  cases hfield : contextInvalidField context with
  | none => rfl
  | some field => rw [hfield] at h; cases h

/-- An attestation that is validly signed by a current device is judged by its head alone. -/
theorem matchAttestation_sound {projectId : JsString} {response : ChainResponse} {view : VerifiedProject}
    (h : verifyChainSnapshot crypto projectId response = .ok view) (hdistinct : FingerprintsDistinct crypto response.entries)
    {a : DistributedAttestation} {key : JsString}
    (hheld : HoldsDevice view a.attesterUserId a.attesterKeyFingerprintHex key)
    (hsigned : ValidlySigned crypto projectId a key) {outcome : MatchOutcome}
    (hmatch : matchAttestation crypto view a = some outcome) (hmismatch : outcome ≠ .mismatch) (hfuture : outcome ≠ .future) :
    NamesHead view a := by
  have hkey := sigKey_of_holds h hdistinct hheld
  obtain ⟨-, hproject, -⟩ := snapshot_ok h
  obtain ⟨member, device, hmember, hdevice, -⟩ := hheld
  obtain ⟨keyBytes, publicKey, hdecoded, himported, hverified⟩ := hsigned
  have hcontext := contextInvalidField_of_verified hverified
  have hinput : distributedInputInvalidField a.attesterKeyFingerprintHex (lit "attesterKeyFingerprintHex") a.signatureHex
      none = none := by
    unfold distributedInputInvalidField
    rw [a.fingerprint, a.signature]
    rfl
  have hheld : member.devices.has a.attesterKeyFingerprintHex = true := (OrderedMap.has_iff _ _).mpr ⟨device, hdevice⟩
  have himport : importActorKeyByFingerprint view.history (contextOf projectId a).attesterUserId
      a.attesterKeyFingerprintHex (.invalid AttestationInvalidReason.attesterUnknown) = .ok publicKey := by
    unfold importActorKeyByFingerprint
    rw [show (contextOf projectId a).attesterUserId = a.attesterUserId from rfl, hkey]
    dsimp only
    rw [hdecoded]
    exact himported
  unfold matchAttestation at hmatch
  rw [hmember] at hmatch
  dsimp only at hmatch
  rw [hheld, Bool.not_true, if_neg Bool.false_ne_true, hproject] at hmatch
  have hverify : verifyDistributedHeadAttestation crypto view.history (contextOf projectId a) a.attesterKeyFingerprintHex
      a.signatureHex = afterSignature crypto view.history (contextOf projectId a) a.attesterKeyFingerprintHex := by
    unfold verifyDistributedHeadAttestation afterSignature
    rw [hcontext, hinput, himport]
    change (do
      verifyHeadAttestationSignature crypto (contextOf projectId a) a.signatureHex publicKey
      _ : Except AttestationFailure JsString) = _
    rw [hverified]
    rfl
  rw [hverify] at hmatch
  unfold afterSignature headAuthorizationReason at hmatch
  by_cases hlate : (contextOf projectId a).chainHeadSeq > view.history.headSeq
  · rw [if_pos hlate] at hmatch
    exact absurd (Option.some.inj hmatch).symm hfuture
  · rw [if_neg hlate] at hmatch
    by_contra hnames
    have hnames : view.history.entryHashAt (contextOf projectId a).chainHeadSeq ≠
      some (contextOf projectId a).chainHeadHashHex := hnames
    rw [if_pos hnames] at hmatch
    exact absurd (Option.some.inj hmatch).symm hmismatch

theorem importActor_reason {history : ChainHistoryIndex} {u : UserId} {fp : KeyFingerprintHex}
    {onUnknown failure : AttestationFailure} (h : importActorKeyByFingerprint history u fp onUnknown = .error failure) :
    failure = onUnknown ∨ ∃ field, failure = .invalidInput field := by
  unfold importActorKeyByFingerprint at h
  split at h
  · cases h
    exact .inl rfl
  · split at h
    · cases h
      exact .inl rfl
    · unfold importSigningPublicKey at h
      split_ifs at h
      cases h
      exact .inr ⟨_, rfl⟩

theorem verifySignature_reason {context : HeadAttestationContext} {signatureHex : JsString} {publicKey : Bytes}
    {reason : AttestationInvalidReason}
    (h : verifyHeadAttestationSignature crypto context signatureHex publicKey = .error (.invalid reason)) :
    reason = .signatureInvalid := by
  rcases bind_error h with h | ⟨-, -, h⟩
  · obtain ⟨field, -, hfield⟩ := Option.map_eq_some_iff.mp (stopAt_error h)
    cases hfield
  · unfold verifyEd25519Over at h
    split at h
    · cases h
    · split at h
      · cases h
      · split_ifs at h
        · cases h
        · cases h
          rfl

theorem verifyDistributed_reason {history : ChainHistoryIndex} {context : HeadAttestationContext} {fp : KeyFingerprintHex}
    {signatureHex : JsString} {reason : AttestationInvalidReason}
    (h : verifyDistributedHeadAttestation crypto history context fp signatureHex = .error (.invalid reason)) :
    reason = .attesterUnknown ∨ reason = .signatureInvalid ∨ ∃ head, headAuthorizationReason history context.chainHeadSeq
      context.chainHeadHashHex context.attesterUserId fp .reader none = some head ∧ headAttestationReason head = reason := by
  rcases bind_error h with h | ⟨-, -, h⟩
  · obtain ⟨field, -, hfield⟩ := Option.map_eq_some_iff.mp (stopAt_error h)
    cases hfield
  rcases bind_error h with h | ⟨publicKey, -, h⟩
  · rcases importActor_reason h with hreason | ⟨field, hfield⟩
    · cases hreason
      exact .inl rfl
    · cases hfield
  rcases bind_error h with h | ⟨-, -, h⟩
  · exact .inr (.inl (verifySignature_reason h))
  rcases bind_error h with h | ⟨-, -, h⟩
  · obtain ⟨head, hhead, hreason⟩ := Option.map_eq_some_iff.mp (stopAt_error h)
    cases hreason
    exact .inr (.inr ⟨head, hhead, rfl⟩)
  · cases hashHexOf_error h

section Heads
variable {history : ChainHistoryIndex} {seq : Nat} {hash : JsString} {u : UserId} {fp : KeyFingerprintHex} {role : Role}
  {scope : Option EnvironmentId}

theorem headReason_future (h : headAuthorizationReason history seq hash u fp role scope = some .chainHeadFuture) :
    history.headSeq < seq := by
  unfold headAuthorizationReason at h
  by_contra hle
  rw [if_neg hle] at h
  split at h
  · cases h
  · split at h
    · cases h
    · split at h
      · cases h
      · split at h
        · cases h
        · split at h <;> cases h

theorem headReason_mismatch (h : headAuthorizationReason history seq hash u fp role scope = some .chainHeadMismatch) :
    history.entryHashAt seq ≠ some hash := by
  unfold headAuthorizationReason at h
  intro hsame
  rw [if_neg (fun hne : history.entryHashAt seq ≠ some hash => hne hsame)] at h
  split at h
  · cases h
  · split at h
    · cases h
    · split at h
      · cases h
      · split at h
        · cases h
        · split at h <;> cases h

end Heads

theorem matchAttestation_named {view : VerifiedProject} {a : DistributedAttestation} (hnames : NamesHead view a)
    (hseq : a.chainHeadSeq ≤ view.history.headSeq) {outcome : MatchOutcome}
    (hmatch : matchAttestation crypto view a = some outcome) : outcome ≠ .mismatch ∧ outcome ≠ .future := by
  have hreason : ∀ reason, verifyDistributedHeadAttestation crypto view.history (contextOf view.projectId a)
      a.attesterKeyFingerprintHex a.signatureHex = .error (.invalid reason) →
      reason ≠ .chainHeadFuture ∧ reason ≠ .chainHeadMismatch := by
    intro reason h
    rcases verifyDistributed_reason h with rfl | rfl | ⟨head, hhead, rfl⟩
    · exact ⟨by decide, by decide⟩
    · exact ⟨by decide, by decide⟩
    · cases head with
      | chainHeadFuture => exact absurd (headReason_future hhead) (Nat.not_lt.mpr hseq)
      | chainHeadMismatch => exact absurd hnames (headReason_mismatch hhead)
      | _ => exact ⟨by decide, by decide⟩
  unfold matchAttestation at hmatch
  split at hmatch
  · cases hmatch
    exact ⟨by decide, by decide⟩
  · split at hmatch
    · cases hmatch
      exact ⟨by decide, by decide⟩
    · split at hmatch
      · cases hmatch
        exact ⟨by decide, by decide⟩
      · cases hmatch
      · rename_i hverify
        exact absurd rfl (hreason _ hverify).1
      · rename_i hverify
        exact absurd rfl (hreason _ hverify).2
      · cases hmatch
        exact ⟨by decide, by decide⟩

theorem matchAttestation_future {view : VerifiedProject} {a : DistributedAttestation}
    (h : matchAttestation crypto view a = some .future) : view.history.headSeq < a.chainHeadSeq := by
  unfold matchAttestation at h
  split at h
  · cases h
  · split at h
    · cases h
    · split at h <;> try cases h
      rename_i hverify
      rcases verifyDistributed_reason hverify with hreason | hreason | ⟨head, hhead, hreason⟩
      · cases hreason
      · cases hreason
      · cases head <;> cases hreason
        exact headReason_future hhead

/-! ## Reconciliation -/

theorem reconcile_ok {view V : VerifiedProject} {resync : Except SyncFailure VerifiedProject}
    (h : reconcileDistributedAttestations crypto view resync = .ok V) :
    ∃ first, classifyAll crypto view view.attestations = some first ∧ first.evidence = [] ∧
      (first.future = [] ∧ V = view ∨ resync = .ok V ∧ view.state.headSeq ≤ V.state.headSeq ∧
        V.history.entryHashAt view.state.headSeq = some view.state.headHashHex ∧
        ∃ second, classifyAll crypto V (firstOfEachKey [] (V.attestations ++ first.future)) = some second ∧
          second.evidence = [] ∧ second.future = []) := by
  unfold reconcileDistributedAttestations at h
  split at h
  · cases h
  · rename_i first hfirst
    refine ⟨first, hfirst, ?_⟩
    split_ifs at h with hevidence hfuture
    · cases h
      refine ⟨by simpa using hevidence, .inl ⟨by simpa using hfuture, rfl⟩⟩
    · refine ⟨by simpa using hevidence, .inr ?_⟩
      obtain ⟨advanced, hadvanced, hrest⟩ := bind_ok h
      obtain ⟨next, hnext, hextends⟩ := bind_ok hadvanced
      unfold ensureExtensionOf at hextends
      split_ifs at hextends with hcheck
      cases hextends
      simp only [Bool.or_eq_true, decide_eq_true_eq, not_or, not_lt, ne_eq, not_not] at hcheck
      split at hrest
      · cases hrest
      · rename_i second hsecond
        split_ifs at hrest with hleft
        cases hrest
        simp only [Bool.or_eq_true, Bool.not_eq_true', not_or, Bool.not_eq_false, List.isEmpty_iff] at hleft
        exact ⟨hnext, hcheck.1, hcheck.2, second, hsecond, hleft.1, hleft.2⟩

end Maruhi.Gossip
