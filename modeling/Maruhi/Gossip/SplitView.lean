import Maruhi.Chain.Wire
import Maruhi.Gossip.Reconcile

/-!
# Split views

A reconciliation that succeeds leaves no attestation of a current device beside its chain, and one against a server
that shows one growing chain to everybody never fails with evidence.
-/

open Text

namespace Maruhi.Gossip

open Chain Signing

/-! ## An honest server -/

/-- One growing chain, and the responses that were given of it. -/
structure Server where
  chain : List Json
  responses : List ChainResponse

/-- The attestation is of a head that the chain has had. -/
def ofChain (crypto : Crypto) (chain : List Json) (a : DistributedAttestation) : Bool :=
  1 ≤ a.chainHeadSeq && (chain[a.chainHeadSeq - 1]?).bind (hashOf crypto) = some a.chainHeadHashHex

inductive ServerStep
  | append (entry : Json)
  | respond (attestations : List DistributedAttestation)

/-- An entry is taken where the chain stays valid; whoever signed them, only attestations of the chain are bundled. -/
def serve (crypto : Crypto) (server : Server) : ServerStep → Server
  | .append entry =>
    match verifyChainWithHistory crypto (server.chain ++ [entry]) with
    | .ok _ => { server with chain := server.chain ++ [entry] }
    | .error _ => server
  | .respond attestations =>
    match verifyChainWithHistory crypto server.chain with
    | .ok (st, _) =>
      if attestations.all (ofChain crypto server.chain) then
        { server with responses := server.responses ++ [⟨server.chain, st.headSeq, st.headHashHex, attestations⟩] }
      else server
    | .error _ => server

def serveAll (crypto : Crypto) (steps : List ServerStep) : Server := steps.foldl (serve crypto) ⟨[], []⟩

/-- A response of the chain as it was. -/
structure Honest (crypto : Crypto) (chain : List Json) (response : ChainResponse) : Prop where
  earlier : response.entries <+: chain
  verified : ∃ st index, verifyChainWithHistory crypto response.entries = .ok (st, index) ∧
    st.headSeq = response.headSeq ∧ st.headHashHex = response.headHashHex
  attested : ∀ a ∈ response.attestations, ofChain crypto response.entries a = true

variable {crypto : Crypto}

theorem Honest.append {chain : List Json} {response : ChainResponse} (h : Honest crypto chain response) (entry : Json) :
    Honest crypto (chain ++ [entry]) response :=
  ⟨h.earlier.trans (List.prefix_append _ _), h.verified, h.attested⟩

theorem serve_honest {server : Server} (h : ∀ r ∈ server.responses, Honest crypto server.chain r) (step : ServerStep) :
    ∀ r ∈ (serve crypto server step).responses, Honest crypto (serve crypto server step).chain r := by
  cases step with
  | append entry =>
    unfold serve
    dsimp only
    split
    · exact fun r hm => (h r hm).append entry
    · exact h
  | respond attestations =>
    unfold serve
    dsimp only
    split
    · rename_i st index hverify
      split_ifs with hall
      · intro r hm
        rcases List.mem_append.mp hm with hm | hm
        · exact h r hm
        · rw [List.mem_singleton.mp hm]
          exact ⟨List.prefix_rfl, ⟨st, index, hverify, rfl, rfl⟩, List.all_eq_true.mp hall⟩
      · exact h
    · exact h

theorem serveAll_honest (steps : List ServerStep) :
    ∀ r ∈ (serveAll crypto steps).responses, Honest crypto (serveAll crypto steps).chain r := by
  unfold serveAll
  induction steps using List.reverseRecOn with
  | nil => exact fun r hm => by cases hm
  | append_singleton steps step ih =>
    rw [List.foldl_append]
    exact serve_honest ih step

/-- The hash of the genesis entry. -/
def projectIdOf (crypto : Crypto) (chain : List Json) : Option JsString := chain.head?.bind (hashOf crypto)

theorem Honest.synced {chain : List Json} {response : ChainResponse} (h : Honest crypto chain response)
    {projectId : JsString} (hproject : projectIdOf crypto chain = some projectId) :
    ∃ view, verifyChainSnapshot crypto projectId response = .ok view := by
  obtain ⟨st, index, hverify, hseq, hhash⟩ := h.verified
  obtain ⟨tail, htail⟩ := h.earlier
  have hne := (verified_indexes hverify).ne
  obtain ⟨genesis, rest, hentries⟩ := List.exists_cons_of_ne_nil hne
  have hgenesis : hashOf crypto genesis = some projectId := by
    rw [← htail, hentries] at hproject
    exact hproject
  unfold verifyChainSnapshot
  rw [hverify]
  dsimp only
  rw [hentries]
  dsimp only [List.head?_cons]
  unfold hashOf at hgenesis
  rw [hgenesis]
  simp [hseq, hhash]

theorem Honest.names {chain : List Json} {response : ChainResponse} (h : Honest crypto chain response)
    {projectId : JsString} {view : VerifiedProject} (hview : verifyChainSnapshot crypto projectId response = .ok view)
    {a : DistributedAttestation} (hm : a ∈ response.attestations) :
    NamesHead view a ∧ a.chainHeadSeq ≤ view.history.headSeq := by
  obtain ⟨hverify, -⟩ := snapshot_ok hview
  have hindexes := verified_indexes hverify
  have hchain := h.attested a hm
  simp only [ofChain, Bool.and_eq_true, decide_eq_true_eq] at hchain
  obtain ⟨h1, hhash⟩ := hchain
  have hle : a.chainHeadSeq ≤ response.entries.length := by
    by_contra hlt
    rw [List.getElem?_eq_none (by omega)] at hhash
    cases hhash
  refine ⟨(hindexes.entryHashAt_eq h1 hle).trans hhash, ?_⟩
  change a.chainHeadSeq ≤ view.history.entryHashes.length
  rw [hindexes.length]
  exact hle

/-- A reconciliation on an honest response keeps the view; the encoder can throw, and nothing else. -/
theorem Honest.reconciled {chain : List Json} {response : ChainResponse} (h : Honest crypto chain response)
    {projectId : JsString} {view : VerifiedProject} (hview : verifyChainSnapshot crypto projectId response = .ok view)
    (resync : Except SyncFailure VerifiedProject) :
    reconcileDistributedAttestations crypto view resync = .ok view ∨
      reconcileDistributedAttestations crypto view resync = .error .died := by
  unfold reconcileDistributedAttestations
  cases hfirst : classifyAll crypto view view.attestations with
  | none => exact .inr rfl
  | some first =>
    have hattestations := (snapshot_ok hview).2.2.2
    have hsorted := classifyAll_from hfirst fun a hm outcome hmatch => by
      rw [hattestations] at hm
      obtain ⟨hnames, hle⟩ := h.names hview hm
      exact matchAttestation_named hnames hle hmatch
    dsimp only
    rw [hsorted.1, hsorted.2]
    exact .inl rfl

/-! ## Both -/

/-- What a reconciliation that succeeds says. -/
structure Agrees (crypto : Crypto) (projectId : JsString) (view V : VerifiedProject) : Prop where
  longer : view.state.headSeq ≤ V.state.headSeq
  extends_view : ∀ q ≤ view.state.headSeq, V.history.entryHashAt q = view.history.entryHashAt q
  first : ∀ a ∈ view.attestations, ∀ key, HoldsDevice view a.attesterUserId a.attesterKeyFingerprintHex key →
    (view.state.headSeq < a.chainHeadSeq → HoldsDevice V a.attesterUserId a.attesterKeyFingerprintHex key) →
    ValidlySigned crypto projectId a key → NamesHead V a
  bundled : ∀ a ∈ V.attestations, ∀ key, HoldsDevice V a.attesterUserId a.attesterKeyFingerprintHex key →
    ValidlySigned crypto projectId a key → NamesHead V a

theorem reconcile_agrees {projectId : JsString} {first : ChainResponse} {second : Option ChainResponse}
    {view V : VerifiedProject} (hview : verifyChainSnapshot crypto projectId first = .ok view)
    (h : reconcileDistributedAttestations crypto view (syncProject crypto projectId second) = .ok V)
    (hfirst : FingerprintsDistinct crypto first.entries)
    (hsecond : ∀ r, second = some r → FingerprintsDistinct crypto r.entries ∧ HashesDistinct crypto first.entries r.entries) :
    Agrees crypto projectId view V := by
  obtain ⟨classified, hclassified, hevidence, hcases⟩ := reconcile_ok h
  have hattestations := (snapshot_ok hview).2.2.2
  have hmatched := (classifyAll_sorted hclassified).matched
  rw [hevidence] at hmatched
  rcases hcases with ⟨hfuture, rfl⟩ | ⟨hresync, hlonger, hhead, again, hagain, hnone, hresolved⟩
  · have hnames : ∀ a ∈ V.attestations, ∀ key, HoldsDevice V a.attesterUserId a.attesterKeyFingerprintHex key →
        ValidlySigned crypto projectId a key → NamesHead V a := by
      intro a hm key hheld hsigned
      obtain ⟨outcome, hmatch, hmismatch, hlate⟩ := hmatched a hm
      rw [hfuture] at hlate
      exact matchAttestation_sound hview hfirst hheld hsigned hmatch (fun he => nomatch hmismatch he)
        (fun he => nomatch hlate he)
    exact ⟨Nat.le_refl _, fun _ _ => rfl, fun a hm key hheld _ hsigned => hnames a hm key hheld hsigned, hnames⟩
  · cases second with
    | none => cases hresync
    | some response =>
      obtain ⟨hdistinct, hhashes⟩ := hsecond response rfl
      have hview' : verifyChainSnapshot crypto projectId response = .ok V := hresync
      have hindexes := verified_indexes (snapshot_ok hview).1
      have hindexes' := verified_indexes (snapshot_ok hview').1
      have hlength : first.entries.length ≤ response.entries.length := by
        rw [← hindexes.seq, ← hindexes'.seq]
        exact hlonger
      have hextends : ∀ q ≤ view.state.headSeq, V.history.entryHashAt q = view.history.entryHashAt q :=
        fun q hq => hindexes.entryHashAt_of_head hindexes' hhashes hlength hhead hq
      have hrematched := (classifyAll_sorted hagain).matched
      rw [hnone, hresolved] at hrematched
      have hnames : ∀ a ∈ V.attestations ++ classified.future, ∀ key,
          HoldsDevice V a.attesterUserId a.attesterKeyFingerprintHex key → ValidlySigned crypto projectId a key →
          NamesHead V a := by
        intro a hm key hheld hsigned
        obtain ⟨outcome, hmatch, hmismatch, hlate⟩ := hrematched a (mem_firstOfEachKey hm List.not_mem_nil)
        exact matchAttestation_sound hview' hdistinct hheld hsigned hmatch (fun he => nomatch hmismatch he)
          (fun he => nomatch hlate he)
      refine ⟨hlonger, hextends, fun a hm key hheld hstill hsigned => ?_, fun a hm => hnames a (List.mem_append_left _ hm)⟩
      obtain ⟨outcome, hmatch, hmismatch, hlate⟩ := hmatched a hm
      by_cases hfuture : outcome = .future
      · have hseq := matchAttestation_future (hfuture ▸ hmatch)
        have hlater : view.state.headSeq < a.chainHeadSeq := by
          rw [hindexes.seq, ← hindexes.length]
          exact hseq
        exact hnames a (List.mem_append_right _ (hlate hfuture)) key (hstill hlater) hsigned
      · have hnamed := matchAttestation_sound hview hfirst hheld hsigned hmatch (fun he => nomatch hmismatch he) hfuture
        have hle := (hindexes.le_of_entryHashAt hnamed).2
        rw [← hindexes.seq] at hle
        exact (hextends _ hle).trans hnamed

/-- Whatever the responses are, a reconciliation that succeeds agrees with every attestation of a current device; and
on the responses of one growing chain it succeeds, where the encoder does not throw. -/
theorem split_view_caught (crypto : Crypto) :
    (∀ projectId first second view V, verifyChainSnapshot crypto projectId first = .ok view →
      reconcileDistributedAttestations crypto view (syncProject crypto projectId second) = .ok V →
      FingerprintsDistinct crypto first.entries →
      (∀ r, second = some r → FingerprintsDistinct crypto r.entries ∧ HashesDistinct crypto first.entries r.entries) →
      Agrees crypto projectId view V) ∧
    ∀ steps, ∀ response ∈ (serveAll crypto steps).responses, ∀ projectId,
      projectIdOf crypto (serveAll crypto steps).chain = some projectId →
      ∃ view, verifyChainSnapshot crypto projectId response = .ok view ∧ ∀ resync,
        reconcileDistributedAttestations crypto view resync = .ok view ∨
          reconcileDistributedAttestations crypto view resync = .error .died := by
  refine ⟨fun projectId first second view V hview h hfirst hsecond => reconcile_agrees hview h hfirst hsecond, ?_⟩
  intro steps response hm projectId hproject
  have hhonest := serveAll_honest steps response hm
  obtain ⟨view, hview⟩ := hhonest.synced hproject
  exact ⟨view, hview, hhonest.reconciled hview⟩

/-! ## A head that was attested before the view had it -/

def soleGenesis : ChainEntry :=
  exampleEntry 1 genesisPrevHash (.direct (.genesis { encPubHex := notaryKey.enc, sigPubHex := notaryKey.sig }))
    "alice" notaryKey
    0x0ef3ea47921873938f0ebfec0c824b0c543707ec5629882f8058953cef6bd72a183fb51aa2aa2f1e76dd267375ac93272ab997aa2469fe8959eec98390b84603

def soleSecond : ChainEntry :=
  exampleEntry 2 (hex 32 0xa83dcd548d75f64510685f5239ee807d15be5820bbdae87a5e124e34f42dfa31)
    (.direct (.createEnvironment { environmentId := lit "prod", dekCommitmentHex := List.replicate 64 49 }))
    "alice" notaryKey
    0xf6552603065f16fcb2e411ae19f1f926ac4cc5ad97b9b8b7d91608382ce1bc8db85ff68b5ddce67b7603f0e0aa90e611fffa2a581db71c59f2b45af86ad6ef06

def soleProject : JsString := hex 32 0xa83dcd548d75f64510685f5239ee807d15be5820bbdae87a5e124e34f42dfa31

def soleAttestation : DistributedAttestation where
  attesterUserId := lit "alice"
  attesterKeyFingerprintHex := notaryKey.fingerprint
  chainHeadHashHex := hex 32 0x70d7925989d4a0814b73d0d6cfcfaf9d994c3673f21747d2c3538fb422c139f3
  chainHeadSeq := 2
  signatureHex := hex 64 0xc4b0a95f6ccf8bdca115d59e4cad743c5da0c08478f176bbe5b8ae19aba6245c79c28be091f63c9bc068556a8166ac4d755e51d5ca3f6d4c563986c59052a10b
  fingerprint := by decide +kernel
  hash := by decide +kernel
  signature := by decide +kernel

/-- SHA-256, and an Ed25519 under which exactly these three signatures are valid. -/
def soleCrypto : Crypto where
  sha256 := Sha256.sha256
  ed25519Verify publicKey signedBytes signature :=
    decodeHex notaryKey.sig = some publicKey &&
      ([soleGenesis, soleSecond].any (fun entry =>
        decodeHex entry.signatureHex = some signature && canonicalChainSignedBytes entry = some signedBytes) ||
      (decodeHex soleAttestation.signatureHex = some signature &&
        buildHeadAttestationSignedBytes (contextOf soleProject soleAttestation) = some signedBytes))

theorem soleCrypto_eq : soleCrypto = {
    sha256 := Sha256.digest
    ed25519Verify := fun publicKey signedBytes signature =>
      notaryKey.sig = encodeHex publicKey &&
        ([soleGenesis, soleSecond].any (fun entry =>
          entry.signatureHex = encodeHex signature && canonicalChainSignedBytes entry = some signedBytes) ||
        (soleAttestation.signatureHex = encodeHex signature &&
          buildHeadAttestationSignedBytes (contextOf soleProject soleAttestation) = some signedBytes)) } := by
  unfold soleCrypto
  simp only [decodeHex_eq_some_iff, Sha256.sha256_eq]

def staleResponse : ChainResponse where
  entries := [entryJson soleGenesis]
  headSeq := 1
  headHashHex := soleProject
  attestations := [soleAttestation]

def laterResponse : ChainResponse where
  entries := [entryJson soleGenesis, entryJson soleSecond]
  headSeq := 2
  headHashHex := soleAttestation.chainHeadHashHex
  attestations := []

/-- The genesis is given out, and the second entry with its attestation. -/
def soleSteps : List ServerStep :=
  [.append (entryJson soleGenesis), .respond [], .append (entryJson soleSecond), .respond [soleAttestation]]

def holdsKey (view : VerifiedProject) : Bool :=
  (view.history.memberStateAt (lit "alice") view.state.headSeq).any fun member =>
    (member.devices.get? notaryKey.fingerprint).any fun device => device.sigPubHex = notaryKey.sig

theorem holds_of_holdsKey {view : VerifiedProject} (h : holdsKey view = true) :
    HoldsDevice view soleAttestation.attesterUserId soleAttestation.attesterKeyFingerprintHex notaryKey.sig := by
  unfold holdsKey at h
  obtain ⟨member, hmember, hdevice⟩ := (Option.any_eq_true _ _).mp h
  obtain ⟨device, hdevice, hkey⟩ := (Option.any_eq_true _ _).mp hdevice
  exact ⟨member, device, hmember, hdevice, of_decide_eq_true hkey⟩

def signedWithKey : Bool :=
  (decodeHex notaryKey.sig).any fun keyBytes =>
    match (importSigningPublicKey keyBytes : Except AttestationFailure Bytes) with
    | .error _ => false
    | .ok publicKey =>
      (verifyHeadAttestationSignature soleCrypto (contextOf soleProject soleAttestation) soleAttestation.signatureHex
        publicKey).toBool

/-- The stale view is resynchronized, and the device still holds at the later head. -/
def resolvesLater : Bool :=
  match verifyChainSnapshot soleCrypto soleProject staleResponse with
  | .error _ => false
  | .ok view =>
    match reconcileDistributedAttestations soleCrypto view
        (syncProject soleCrypto soleProject (some laterResponse)) with
    | .error _ => false
    | .ok V => holdsKey view && holdsKey V

def HashesApart : Prop :=
  ∀ e ∈ readEntries staleResponse.entries, ∀ e' ∈ readEntries laterResponse.entries,
    (canonicalChainEntryBytes e).map soleCrypto.sha256 = (canonicalChainEntryBytes e').map soleCrypto.sha256 →
    canonicalChainEntryBytes e = canonicalChainEntryBytes e'

set_option maxRecDepth 100000 in
theorem sole_evaluated : signedWithKey = true ∧ resolvesLater = true ∧ HashesApart ∧
    FingerprintsDistinct soleCrypto staleResponse.entries ∧ FingerprintsDistinct soleCrypto laterResponse.entries ∧
    ((serveAll soleCrypto soleSteps).responses.map fun response => response.attestations) = [[], [soleAttestation]] ∧
    projectIdOf soleCrypto (serveAll soleCrypto soleSteps).chain = some soleProject := by
  unfold signedWithKey resolvesLater HashesApart
  rw [soleCrypto_eq]
  decide +kernel

theorem soleAttestation_signed : ValidlySigned soleCrypto soleProject soleAttestation notaryKey.sig := by
  have h := sole_evaluated.1
  unfold signedWithKey at h
  obtain ⟨keyBytes, hdecoded, h⟩ := (Option.any_eq_true _ _).mp h
  split at h
  · cases h
  · rename_i publicKey himport
    refine ⟨keyBytes, publicKey, hdecoded, himport, ?_⟩
    revert h
    cases verifyHeadAttestationSignature soleCrypto (contextOf soleProject soleAttestation) soleAttestation.signatureHex
      publicKey with
    | error failure => exact fun h => by cases h
    | ok value => exact fun _ => rfl

theorem laterResponse_hashesDistinct : HashesDistinct soleCrypto staleResponse.entries laterResponse.entries := by
  intro e he e' he' b b' hb hb' hsum
  have h := sole_evaluated.2.2.1 e he e' he'
  rw [hb, hb'] at h
  exact Option.some.inj (h (congrArg some hsum))

/-- The attested head is the one the view names in the end, and the server that gave out both accuses nobody. -/
theorem split_view_caught_example : (∃ view V, verifyChainSnapshot soleCrypto soleProject staleResponse = .ok view ∧
      reconcileDistributedAttestations soleCrypto view (syncProject soleCrypto soleProject (some laterResponse)) = .ok V ∧
      NamesHead V soleAttestation) ∧
    ((serveAll soleCrypto soleSteps).responses.map fun response => response.attestations) = [[], [soleAttestation]] ∧
    ∀ response ∈ (serveAll soleCrypto soleSteps).responses, ∃ view,
      verifyChainSnapshot soleCrypto soleProject response = .ok view ∧ ∀ resync,
        reconcileDistributedAttestations soleCrypto view resync = .ok view ∨
          reconcileDistributedAttestations soleCrypto view resync = .error .died := by
  obtain ⟨-, h, -, hstale, hlater, hserved, hproject⟩ := sole_evaluated
  obtain ⟨hagree, hhonest⟩ := split_view_caught soleCrypto
  refine ⟨?_, hserved, fun response hresponse => hhonest soleSteps response hresponse soleProject hproject⟩
  unfold resolvesLater at h
  split at h
  · cases h
  · rename_i view hview
    split at h
    · cases h
    · rename_i V hV
      obtain ⟨hfirst, hthen⟩ := (Bool.and_eq_true _ _).mp h
      have hagrees := hagree soleProject staleResponse (some laterResponse) view V hview hV hstale fun r hr => by
        cases hr
        exact ⟨hlater, laterResponse_hashesDistinct⟩
      refine ⟨view, V, hview, hV, hagrees.first soleAttestation ?_ notaryKey.sig (holds_of_holdsKey hfirst)
        (fun _ => holds_of_holdsKey hthen) soleAttestation_signed⟩
      rw [(snapshot_ok hview).2.2.2]
      exact List.mem_singleton_self _

end Maruhi.Gossip
