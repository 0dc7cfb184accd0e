import Maruhi.Lease.Programs
import Maruhi.Proposals.Run

/-!
# The first key a token is served for

Every run of leases, mints and pre-flights, with anything else the project does in between.
-/

open Text Binary64

namespace Maruhi.Lease
open Chain Checkpoint Proposals

variable {crypto : Crypto} {N : Type}

/-! ## What a refusal leaves -/

/-- The bindings and the windows of what is issued. -/
structure Untouched (s s' : LeaseState crypto) : Prop where
  bindings : s'.bindings = s.bindings
  issued : s'.issued = s.issued
  proposed : s'.project.window = s.project.window

theorem Untouched.refl (s : LeaseState crypto) : Untouched s s := ⟨rfl, rfl, rfl⟩

theorem countDenial_untouched (s : LeaseState crypto) (nowMs : Nat) : Untouched s (countDenial s nowMs) := by
  unfold countDenial
  split_ifs <;> exact ⟨rfl, rfl, rfl⟩

theorem recordDenied_untouched (s : LeaseState crypto) (nowMs : Nat) : Untouched s (recordDenied s nowMs) := by
  unfold recordDenied
  split_ifs
  · obtain ⟨hbindings, hissued, -⟩ := countDenial_untouched s nowMs
    exact ⟨hbindings, hissued, rfl⟩
  · exact .refl s

theorem authorizeWorkload_ok {s s' : LeaseState crypto} {nowMs : Nat} {serverKey : Option KeyFingerprintHex}
    {environmentId : EnvironmentId} {ephemeralPubHex : JsString} {facts : LeaseTokenFacts N} {reads : WorkloadReads}
    {grant : KeyFingerprintHex × ServerGrant}
    (h : authorizeWorkload s nowMs serverKey environmentId ephemeralPubHex facts reads = (s', .ok grant)) :
    s' = s ∧ rejectReplayedToken s facts ephemeralPubHex nowMs = false := by
  unfold authorizeWorkload at h
  split at h
  · cases h
  · split at h
    · cases h
    · split_ifs at h with hpolicy hscope hreplayed hactive
      · cases h
      · cases h
      · cases h
      · cases h
      · cases h
        exact ⟨rfl, Bool.eq_false_iff.mpr hreplayed⟩

theorem authorizeWorkload_error {s s' : LeaseState crypto} {nowMs : Nat} {serverKey : Option KeyFingerprintHex}
    {environmentId : EnvironmentId} {ephemeralPubHex : JsString} {facts : LeaseTokenFacts N} {reads : WorkloadReads}
    {rejection : LeaseRejection}
    (h : authorizeWorkload s nowMs serverKey environmentId ephemeralPubHex facts reads = (s', .error rejection)) :
    Untouched s s' ∧ (rejection = .replayed → rejectReplayedToken s facts ephemeralPubHex nowMs = true) := by
  unfold authorizeWorkload at h
  split at h
  · cases h
    exact ⟨.refl s, fun h => by cases h⟩
  · split at h
    · cases h
      exact ⟨recordDenied_untouched s nowMs, fun h => by cases h⟩
    · split_ifs at h with hpolicy hscope hreplayed hactive
      · cases h
        exact ⟨recordDenied_untouched s nowMs, fun h => by cases h⟩
      · cases h
        exact ⟨recordDenied_untouched s nowMs, fun h => by cases h⟩
      · cases h
        exact ⟨recordDenied_untouched s nowMs, fun _ => hreplayed⟩
      · cases h
        exact ⟨recordDenied_untouched s nowMs, fun h => by cases h⟩
      · cases h

theorem sweepExpired_window (s : ProjectState crypto) (nowMs : Nat) (except : Option ProposalId) :
    (sweepExpired s nowMs except).window = s.window := rfl

theorem mint_refused {s s' : ProjectState crypto} {nowMs grantSeq : Nat} {environmentId : EnvironmentId}
    {recordsDenial storageRejects : Bool} {claimsDigestHex : JsString} {proposal : RotationProposalInput}
    {rejection : ProposalRejection}
    (h : Proposals.proposeRotationProgram s nowMs environmentId ⟨.ok grantSeq, recordsDenial, storageRejects⟩
      claimsDigestHex proposal = (s', .error rejection)) :
    s'.window = s.window ∧ rejected rejection ≠ .refused .replayed := by
  unfold Proposals.proposeRotationProgram at h
  dsimp only at h
  split_ifs at h
  · cases h
    exact ⟨rfl, by simp [rejected]⟩
  · cases h
    exact ⟨rfl, by simp [rejected]⟩
  · split at h
    · cases h
      refine ⟨?_, by simp [rejected, leaseRejectionOf]⟩
      unfold Proposals.recordDenied
      split_ifs <;> rfl
    · split at h
      · cases h
        exact ⟨sweepExpired_window s nowMs none, by simp [rejected]⟩
      · cases h

theorem preflight_result {s s' : ProjectState crypto} {nowMs grantSeq : Nat} {environmentId : EnvironmentId}
    {recordsDenial storageRejects : Bool} {named : List (VariableId × Nat)} {recipients : List (UserId × JsString)}
    {result : Except ProposalRejection Unit}
    (h : Proposals.preflightRotationProgram s nowMs environmentId ⟨.ok grantSeq, recordsDenial, storageRejects⟩
      named recipients = (s', result)) :
    s'.window = s.window ∧ ∀ rejection, result = .error rejection → rejected rejection ≠ .refused .replayed := by
  unfold Proposals.preflightRotationProgram at h
  dsimp only at h
  split_ifs at h
  · cases h
    exact ⟨rfl, fun _ h => by cases h; simp [rejected]⟩
  · cases h
    exact ⟨rfl, fun _ h => by cases h; simp [rejected]⟩
  · split at h
    · cases h
      exact ⟨rfl, fun _ h => by cases h; simp [rejected, leaseRejectionOf]⟩
    · split at h
      · cases h
        exact ⟨sweepExpired_window s nowMs none, fun _ h => by cases h; simp [rejected]⟩
      · cases h
        exact ⟨sweepExpired_window s nowMs none, fun _ h => by cases h⟩

/-! ## One request -/

def WorkloadOutcome.issues : WorkloadOutcome → Bool
  | leased _ => true
  | stored _ _ => true
  | _ => false

/-- What a program does with the bindings: it records one with what it issues, or leaves them. -/
def Binds (s : LeaseState crypto) (nowMs : Nat) (ephemeralPubHex : JsString) (facts : LeaseTokenFacts N)
    (result : LeaseState crypto × WorkloadOutcome) : Prop :=
  if result.2.issues then
    rejectReplayedToken s facts ephemeralPubHex nowMs = false ∧
      result.1.bindings = recordLeaseBinding s.bindings facts.bindingKeyHex ephemeralPubHex facts.bindingExpiresAtMs nowMs
  else Untouched s result.1 ∧
    (result.2 = .refused .replayed → rejectReplayedToken s facts ephemeralPubHex nowMs = true)

theorem Binds.unissued {s s' : LeaseState crypto} {nowMs : Nat} {ephemeralPubHex : JsString} {facts : LeaseTokenFacts N}
    {outcome : WorkloadOutcome} (hissues : outcome.issues = false) (h : Untouched s s')
    (hreplayed : outcome = .refused .replayed → rejectReplayedToken s facts ephemeralPubHex nowMs = true) :
    Binds s nowMs ephemeralPubHex facts (s', outcome) := by
  unfold Binds
  rw [if_neg (by simp [hissues])]
  exact ⟨h, hreplayed⟩

theorem Binds.issued {s s' : LeaseState crypto} {nowMs : Nat} {ephemeralPubHex : JsString} {facts : LeaseTokenFacts N}
    {outcome : WorkloadOutcome} (hissues : outcome.issues = true)
    (hpass : rejectReplayedToken s facts ephemeralPubHex nowMs = false)
    (hbindings : s'.bindings =
      recordLeaseBinding s.bindings facts.bindingKeyHex ephemeralPubHex facts.bindingExpiresAtMs nowMs) :
    Binds s nowMs ephemeralPubHex facts (s', outcome) := by
  unfold Binds
  rw [if_pos hissues]
  exact ⟨hpass, hbindings⟩

theorem leaseProgram_binds (s : LeaseState crypto) (nowMs : Nat) (serverKey : Option KeyFingerprintHex)
    (environmentId : EnvironmentId) (ephemeralPubHex : JsString) (facts : LeaseTokenFacts N) (reads : WorkloadReads) :
    Binds s nowMs ephemeralPubHex facts
      (leaseProgram s nowMs serverKey environmentId ephemeralPubHex facts reads) := by
  unfold leaseProgram
  split
  · rename_i s' rejection hauthorize
    obtain ⟨huntouched, hreplayed⟩ := authorizeWorkload_error hauthorize
    exact .unissued rfl huntouched fun h => hreplayed (by cases h; rfl)
  · rename_i s' fingerprint grant hauthorize
    obtain ⟨rfl, hpass⟩ := authorizeWorkload_ok hauthorize
    split
    · exact .unissued rfl (recordDenied_untouched _ nowMs) fun h => by cases h
    · split
      · exact .unissued rfl (.refl _) fun h => by cases h
      · split_ifs
        · exact .unissued rfl (.refl _) fun h => by cases h
        · dsimp only
          split
          · exact .unissued rfl (recordDenied_untouched _ nowMs) fun h => by cases h
          · split
            · exact .unissued rfl (recordDenied_untouched _ nowMs) fun h => by cases h
            · exact .issued rfl hpass rfl

theorem proposeRotationProgram_binds (s : LeaseState crypto) (nowMs : Nat) (serverKey : Option KeyFingerprintHex)
    (environmentId : EnvironmentId) (ephemeralPubHex : JsString) (facts : LeaseTokenFacts N) (reads : WorkloadReads)
    (proposal : RotationProposalInput) :
    Binds s nowMs ephemeralPubHex facts
      (proposeRotationProgram s nowMs serverKey environmentId ephemeralPubHex facts reads proposal) := by
  unfold proposeRotationProgram
  split
  · rename_i s' rejection hauthorize
    obtain ⟨huntouched, hreplayed⟩ := authorizeWorkload_error hauthorize
    exact .unissued rfl huntouched fun h => hreplayed (by cases h; rfl)
  · rename_i s' fingerprint grant hauthorize
    obtain ⟨rfl, hpass⟩ := authorizeWorkload_ok hauthorize
    dsimp only
    split
    · rename_i project rejection hmint
      obtain ⟨hwindow, hreplayed⟩ := mint_refused hmint
      obtain ⟨hbindings, hissued, -⟩ := countDenial_untouched s' nowMs
      exact .unissued rfl ⟨hbindings, hissued, hwindow⟩ fun h => absurd h hreplayed
    · rename_i project reason hmint
      exact .unissued rfl ⟨rfl, rfl, (mint_refused hmint).1⟩ fun h => by cases h
    · exact .issued rfl hpass rfl

theorem preflightRotationProgram_binds (s : LeaseState crypto) (nowMs laterMs : Nat) (serverKey : Option KeyFingerprintHex)
    (environmentId : EnvironmentId) (ephemeralPubHex : JsString) (facts : LeaseTokenFacts N) (reads : WorkloadReads)
    (named : List (VariableId × Nat)) (recipients : List (UserId × JsString)) :
    Binds s nowMs ephemeralPubHex facts
      (preflightRotationProgram s nowMs laterMs serverKey environmentId ephemeralPubHex facts reads named recipients) := by
  unfold preflightRotationProgram
  split
  · rename_i s' rejection hauthorize
    obtain ⟨huntouched, hreplayed⟩ := authorizeWorkload_error hauthorize
    exact .unissued rfl huntouched fun h => hreplayed (by cases h; rfl)
  · rename_i s' fingerprint grant hauthorize
    obtain ⟨rfl, hpass⟩ := authorizeWorkload_ok hauthorize
    dsimp only
    split
    · rename_i project rejection hpreflight
      obtain ⟨hwindow, hreplayed⟩ := preflight_result hpreflight
      refine .unissued ?_ ⟨rfl, rfl, hwindow⟩ fun h => absurd h (hreplayed rejection rfl)
      cases rejection <;> rfl
    · rename_i project hpreflight
      exact .unissued rfl ⟨rfl, rfl, (preflight_result hpreflight).1⟩ fun h => by cases h

theorem runCall_binds (s : LeaseState crypto) (r : WorkloadRequest) (facts : LeaseTokenFacts N) :
    Binds s r.nowMs r.ephemeralPubHex facts (runCall s r facts) := by
  unfold runCall
  cases r.call with
  | lease => exact leaseProgram_binds s _ _ _ _ facts _
  | propose proposal => exact proposeRotationProgram_binds s _ _ _ _ facts _ proposal
  | preflight named recipients => exact preflightRotationProgram_binds s _ _ _ _ _ facts _ named recipients

/-! ## Runs -/

/-- Between the requests the project changes as it may. Its windows and bindings are those of the requests. -/
inductive WorkloadEvent (crypto : Crypto)
  | request (r : WorkloadRequest)
  | init (project : ProjectState crypto)
  | elsewhere (project : ProjectState crypto)

/-- The tables of a new project are empty. -/
def LeaseState.fresh (project : ProjectState crypto) : LeaseState crypto where
  project := { project with window := none }
  issued := none
  denied := none
  bindings := .empty

def LeaseState.replace (project : ProjectState crypto) (s : LeaseState crypto) : LeaseState crypto :=
  { s with project := { project with window := s.project.window } }

structure Served (crypto : Crypto) where
  before : Option (LeaseState crypto)
  request : WorkloadRequest
  outcome : WorkloadOutcome
  after : Option (LeaseState crypto)

/-- The requests of a run with what each came to. -/
def served (verifier : Verifier N) : Option (LeaseState verifier.crypto) → List (WorkloadEvent verifier.crypto) →
    List (Served verifier.crypto)
  | _, [] => []
  | s, .request r :: rest => ⟨s, r, (serve verifier s r).2, (serve verifier s r).1⟩ :: served verifier (serve verifier s r).1 rest
  | s, .init project :: rest => served verifier (some (s.getD (.fresh project))) rest
  | s, .elsewhere project :: rest => served verifier (s.map (LeaseState.replace project)) rest

attribute [grind =] served

def requestsOf : List (WorkloadEvent crypto) → List WorkloadRequest
  | [] => []
  | .request r :: rest => r :: requestsOf rest
  | _ :: rest => requestsOf rest

attribute [grind =] requestsOf

/-- The readings of the project's clock. Only the pre-flight reads it twice. -/
def WorkloadRequest.readings (r : WorkloadRequest) : List Nat :=
  match r.call with
  | .preflight _ _ => [r.nowMs, r.laterMs]
  | _ => [r.nowMs]

/-- The worker's clock is at most the margin less the skew away from the project's. -/
def WorkloadRequest.ClockNear (r : WorkloadRequest) : Prop :=
  r.nowMs ≤ r.verifiedAtMs + (leaseBindingRetentionMarginMs - oidcClockSkewMs) ∧
    r.verifiedAtMs ≤ r.nowMs + (leaseBindingRetentionMarginMs - oidcClockSkewMs)

/-- The project's clock is ahead by just that much. -/
def WorkloadRequest.AtEdge (r : WorkloadRequest) : Prop :=
  r.nowMs = r.verifiedAtMs + (leaseBindingRetentionMarginMs - oidcClockSkewMs)

/-- The token's time is up at a whole millisecond. -/
def WorkloadRequest.WholeExpiry (verifier : Verifier N) (r : WorkloadRequest) : Prop :=
  ∀ decoded, decodeSegments verifier.numbers r.token = some decoded →
    ∀ exp, numericClaim verifier.numbers decoded.claims "exp" = some exp →
      ∀ q, claimMs exp = finite q → ∃ k : ℤ, q = k

theorem claimMs_int {k : ℤ} {q : ℚ} (h : claimMs k = finite q) : ∃ m : ℤ, q = m := by
  refine nearest_int (k := k * 1000) ?_
  rw [← h]
  unfold claimMs
  push_cast
  rfl

/-- The signing input of a token. -/
def signingInput (verifier : Verifier N) (token : JsString) : Option Bytes :=
  (decodeSegments verifier.numbers token).map fun decoded => decoded.signingInput

/-- SHA-256 tells the signing inputs of the requests apart. -/
def SigningInputsDistinct (verifier : Verifier N) (requests : List WorkloadRequest) : Prop :=
  ∀ r ∈ requests, ∀ r' ∈ requests, ∀ x ∈ signingInput verifier r.token, ∀ x' ∈ signingInput verifier r'.token,
    verifier.crypto.sha256 x = verifier.crypto.sha256 x' → x = x'

def bindingsOf (s : Option (LeaseState crypto)) : LeaseBindings := s.elim .empty LeaseState.bindings

def Served.issues (a : Served crypto) : Bool := a.outcome.issues

/-- The key a request's token is bound to when it arrives. -/
def Served.boundTo (verifier : Verifier N) (a : Served verifier.crypto) : Option JsString :=
  (signingInput verifier a.request.token).bind fun x =>
    leaseBinding (bindingsOf a.before) (signingInputHashHex verifier.crypto x) a.request.nowMs

/-- One token, one key: what a run of requests keeps. -/
structure FirstComeBinding (verifier : Verifier N) (log : List (Served verifier.crypto)) : Prop where
  agree : ∀ a ∈ log, ∀ b ∈ log, a.issues = true → b.issues = true →
    signingInput verifier a.request.token = signingInput verifier b.request.token →
      a.request.ephemeralPubHex = b.request.ephemeralPubHex
  bound : ∀ a ∈ log, a.boundTo verifier = some a.request.ephemeralPubHex → a.outcome ≠ .refused .replayed
  again : ∀ earlier a later, log = earlier ++ a :: later → ∀ b ∈ earlier, b.issues = true →
    signingInput verifier a.request.token = signingInput verifier b.request.token →
      b.request.ephemeralPubHex = a.request.ephemeralPubHex → a.outcome ≠ .refused .replayed
  refused : ∀ a ∈ log, a.issues = false → ∀ s ∈ a.before, ∃ s' ∈ a.after, Untouched s s'
  absent : ∀ a ∈ log, a.before = none → a.issues = false ∧ a.after = none

/-! ## What was issued -/

/-- The claim an issuance makes in the table. -/
def grantOf (verifier : Verifier N) (a : Served verifier.crypto) : Option (FirstCome.Granted JsString JsString Extended) :=
  if a.issues then
    match authenticateWorkload verifier a.request.jwks a.request.addressAllowed a.request.token a.request.verifiedAtMs with
    | .ok facts => some ⟨⟨a.request.ephemeralPubHex, facts.bindingExpiresAtMs⟩, facts.bindingKeyHex⟩
    | .error _ => none
  else none

theorem grantOf_some {verifier : Verifier N} {a : Served verifier.crypto} {g : FirstCome.Granted JsString JsString Extended}
    (h : grantOf verifier a = some g) : a.issues = true ∧ g.value = a.request.ephemeralPubHex ∧
      ∃ facts decoded exp, Authenticated verifier a.request.token a.request.verifiedAtMs facts decoded exp ∧
        g.key = facts.bindingKeyHex ∧ g.deadline = facts.bindingExpiresAtMs := by
  unfold grantOf at h
  split_ifs at h with hissues
  split at h
  · rename_i facts hfacts
    obtain ⟨decoded, exp, hauth⟩ := authenticateWorkload_ok hfacts
    cases h
    exact ⟨hissues, rfl, facts, decoded, exp, hauth, rfl, rfl⟩
  · cases h

theorem Authenticated.signingInput_eq {verifier : Verifier N} {token : JsString} {nowMs : Nat}
    {facts : LeaseTokenFacts N} {decoded : DecodedSegments N} {exp : ℚ}
    (h : Authenticated verifier token nowMs facts decoded exp) :
    signingInput verifier token = some decoded.signingInput := by
  rw [signingInput, h.decodes, Option.map_some]

theorem Authenticated.same {verifier : Verifier N} {requests : List WorkloadRequest}
    (hdistinct : SigningInputsDistinct verifier requests) {r r' : WorkloadRequest} (hr : r ∈ requests)
    (hr' : r' ∈ requests) {facts facts' : LeaseTokenFacts N} {decoded decoded' : DecodedSegments N} {exp exp' : ℚ}
    (h : Authenticated verifier r.token r.verifiedAtMs facts decoded exp)
    (h' : Authenticated verifier r'.token r'.verifiedAtMs facts' decoded' exp')
    (hkey : facts.bindingKeyHex = facts'.bindingKeyHex) :
    signingInput verifier r.token = signingInput verifier r'.token ∧
      facts.bindingExpiresAtMs = facts'.bindingExpiresAtMs := by
  have hsigned : decoded.signingInput = decoded'.signingInput := by
    rw [h.bindingKey, h'.bindingKey] at hkey
    exact hdistinct r hr r' hr' _ h.signingInput_eq _ h'.signingInput_eq (encodeHex_inj hkey)
  refine ⟨by rw [h.signingInput_eq, h'.signingInput_eq, hsigned], ?_⟩
  have hclaims := claims_eq_of_signingInput h.decodes h'.decodes hsigned
  have hexp := h.expires
  rw [hclaims, h'.expires] at hexp
  rw [h.bindingExpires, h'.bindingExpires, Option.some.inj hexp]

/-- Where the worker's clock let the token through, the project still keeps its binding. -/
theorem Authenticated.inWindow {verifier : Verifier N} {r : WorkloadRequest} {facts : LeaseTokenFacts N}
    {decoded : DecodedSegments N} {exp : ℚ} (h : Authenticated verifier r.token r.verifiedAtMs facts decoded exp)
    (hnear : r.ClockNear) (hedge : r.AtEdge → r.WholeExpiry verifier) : finite r.nowMs < facts.bindingExpiresAtMs := by
  have hlater : r.nowMs + 1 ≤ 2 ^ 53 := (Nat.succ_le_succ r.nowMs_le).trans (by decide)
  have hverified : r.verifiedAtMs ≤ 2 ^ 53 := r.verifiedAtMs_le.trans (by decide)
  have hgap : r.nowMs + oidcClockSkewMs ≤ r.verifiedAtMs + leaseBindingRetentionMarginMs := by
    have := hnear.1
    unfold leaseBindingRetentionMarginMs at this ⊢
    omega
  rw [h.bindingExpires]
  refine lt_plus_of_lt_plus hlater hverified h.inTime hgap fun heq => ?_
  have hatEdge : r.AtEdge := by
    unfold WorkloadRequest.AtEdge
    unfold leaseBindingRetentionMarginMs at heq ⊢
    omega
  exact hedge hatEdge decoded h.decodes exp h.expires

/-! ## One more request -/

/-- What serving a request does: it issues by a binding that lets it through, or it leaves the bindings. -/
inductive ServeCases (verifier : Verifier N) (s : Option (LeaseState verifier.crypto)) (r : WorkloadRequest) :
    Option (LeaseState verifier.crypto) × WorkloadOutcome → Prop
  | issued (st st' : LeaseState verifier.crypto) (facts : LeaseTokenFacts N) (outcome : WorkloadOutcome)
      (state : s = some st)
      (authenticated : authenticateWorkload verifier r.jwks r.addressAllowed r.token r.verifiedAtMs = .ok facts)
      (issues : outcome.issues = true) (passes : rejectReplayedToken st facts r.ephemeralPubHex r.nowMs = false)
      (bindings : st'.bindings =
        recordLeaseBinding st.bindings facts.bindingKeyHex r.ephemeralPubHex facts.bindingExpiresAtMs r.nowMs) :
      ServeCases verifier s r (some st', outcome)
  | kept (s' : Option (LeaseState verifier.crypto)) (outcome : WorkloadOutcome) (issues : outcome.issues = false)
      (untouched : ∀ st ∈ s, ∃ st' ∈ s', Untouched st st') (absent : s = none → s' = none)
      (replayed : outcome = .refused .replayed → ∃ st facts, s = some st ∧
        authenticateWorkload verifier r.jwks r.addressAllowed r.token r.verifiedAtMs = .ok facts ∧
        rejectReplayedToken st facts r.ephemeralPubHex r.nowMs = true) :
      ServeCases verifier s r (s', outcome)

theorem serve_cases (verifier : Verifier N) (s : Option (LeaseState verifier.crypto)) (r : WorkloadRequest) :
    ServeCases verifier s r (serve verifier s r) := by
  unfold serve
  cases hauth : authenticateWorkload verifier r.jwks r.addressAllowed r.token r.verifiedAtMs with
  | error error =>
    exact .kept s _ rfl (fun st hst => ⟨st, hst, .refl st⟩) id fun h => by cases h
  | ok facts =>
    cases s with
    | none =>
      refine .kept none _ rfl (fun st hst => by cases hst) id fun h => ?_
      cases hkey : r.serverKey.isNone <;> simp [hkey] at h
    | some st =>
      have hbinds := runCall_binds st r facts
      unfold Binds at hbinds
      split_ifs at hbinds with hissues
      · exact .issued st _ facts _ rfl hauth hissues hbinds.1 hbinds.2
      · refine .kept _ _ (Bool.eq_false_iff.mpr hissues) ?_ (fun h => by cases h) fun h =>
          ⟨st, facts, rfl, hauth, hbinds.2 h⟩
        intro st' hst'
        cases hst'
        exact ⟨_, rfl, hbinds.1⟩

/-- The state of a run: its log keeps one key for each token, and the table is that of the log. -/
structure Bound (verifier : Verifier N) (requests : List WorkloadRequest) (log : List (Served verifier.crypto))
    (s : Option (LeaseState verifier.crypto)) (nowMs : Nat) : Prop where
  requested : ∀ a ∈ log, a.request ∈ requests
  granted : ∀ a ∈ log, a.issues = true → ∃ g, grantOf verifier a = some g
  keeps : FirstCome.Keeps (log.filterMap (grantOf verifier)) (bindingsOf s) (finite nowMs)
  binding : FirstComeBinding verifier log

theorem snoc_split {α : Type} {earlier later log : List α} {a x : α} (h : log ++ [x] = earlier ++ a :: later) :
    (later = [] ∧ earlier = log ∧ a = x) ∨ ∃ rest, log = earlier ++ a :: rest := by
  rcases List.eq_nil_or_concat later with rfl | ⟨rest, y, rfl⟩
  · obtain ⟨rfl, hlast⟩ := List.append_inj' h rfl
    cases hlast
    exact .inl ⟨rfl, rfl, rfl⟩
  · refine .inr ⟨rest, ?_⟩
    rw [List.concat_eq_append, ← List.cons_append, ← List.append_assoc] at h
    exact (List.append_inj' h rfl).1

theorem FirstComeBinding.snoc_kept {verifier : Verifier N} {log : List (Served verifier.crypto)}
    (h : FirstComeBinding verifier log) {a : Served verifier.crypto} (hissues : a.issues = false)
    (hbound : a.boundTo verifier = some a.request.ephemeralPubHex → a.outcome ≠ .refused .replayed)
    (hagain : ∀ b ∈ log, b.issues = true →
      signingInput verifier a.request.token = signingInput verifier b.request.token →
        b.request.ephemeralPubHex = a.request.ephemeralPubHex → a.outcome ≠ .refused .replayed)
    (hrefused : ∀ s ∈ a.before, ∃ s' ∈ a.after, Untouched s s') (habsent : a.before = none → a.after = none) :
    FirstComeBinding verifier (log ++ [a]) where
  agree := by
    have hold : ∀ b ∈ log ++ [a], b.issues = true → b ∈ log := by
      intro b hb hissued
      rcases List.mem_append.mp hb with hb | hb
      · exact hb
      · rw [List.mem_singleton.mp hb, hissues] at hissued
        cases hissued
    exact fun b hb c hc hib hic => h.agree b (hold b hb hib) c (hold c hc hic) hib hic
  bound := by
    intro b hb
    rcases List.mem_append.mp hb with hb | hb
    · exact h.bound b hb
    · rw [List.mem_singleton.mp hb]
      exact hbound
  again := by
    intro earlier b later hsplit
    rcases snoc_split hsplit with ⟨-, rfl, rfl⟩ | ⟨rest, hrest⟩
    · exact hagain
    · exact h.again earlier b rest hrest
  refused := by
    intro b hb hib
    rcases List.mem_append.mp hb with hb | hb
    · exact h.refused b hb hib
    · rw [List.mem_singleton.mp hb]
      exact hrefused
  absent := by
    intro b hb hnone
    rcases List.mem_append.mp hb with hb | hb
    · exact h.absent b hb hnone
    · rw [List.mem_singleton.mp hb] at hnone ⊢
      exact ⟨hissues, habsent hnone⟩

theorem FirstComeBinding.snoc_issued {verifier : Verifier N} {log : List (Served verifier.crypto)}
    (h : FirstComeBinding verifier log) {a : Served verifier.crypto} (hissues : a.issues = true)
    (hstate : a.before ≠ none) (hagree : ∀ b ∈ log, b.issues = true →
      signingInput verifier a.request.token = signingInput verifier b.request.token →
        b.request.ephemeralPubHex = a.request.ephemeralPubHex) : FirstComeBinding verifier (log ++ [a]) := by
  have hnot : a.outcome ≠ .refused .replayed := by
    intro hout
    rw [Served.issues, hout] at hissues
    cases hissues
  refine ⟨?_, ?_, ?_, ?_, ?_⟩
  · intro b hb c hc hib hic hsame
    rcases List.mem_append.mp hb with hb | hb <;> rcases List.mem_append.mp hc with hc | hc
    · exact h.agree b hb c hc hib hic hsame
    · rw [List.mem_singleton.mp hc] at hsame ⊢
      exact hagree b hb hib hsame.symm
    · rw [List.mem_singleton.mp hb] at hsame ⊢
      exact (hagree c hc hic hsame).symm
    · rw [List.mem_singleton.mp hb, List.mem_singleton.mp hc]
  · intro b hb
    rcases List.mem_append.mp hb with hb | hb
    · exact h.bound b hb
    · rw [List.mem_singleton.mp hb]
      exact fun _ => hnot
  · intro earlier b later hsplit
    rcases snoc_split hsplit with ⟨-, rfl, rfl⟩ | ⟨rest, hrest⟩
    · exact fun _ _ _ _ _ => hnot
    · exact h.again earlier b rest hrest
  · intro b hb hib
    rcases List.mem_append.mp hb with hb | hb
    · exact h.refused b hb hib
    · rw [List.mem_singleton.mp hb, hissues] at hib
      cases hib
  · intro b hb hnone
    rcases List.mem_append.mp hb with hb | hb
    · exact h.absent b hb hnone
    · rw [List.mem_singleton.mp hb] at hnone
      exact absurd hnone hstate

/-- The binding that refuses a request is an earlier issuance's, under another key. -/
theorem Bound.replayed {verifier : Verifier N} {requests : List WorkloadRequest} {log : List (Served verifier.crypto)}
    {st : LeaseState verifier.crypto} {nowMs : Nat} (h : Bound verifier requests log (some st) nowMs)
    (hdistinct : SigningInputsDistinct verifier requests) {r : WorkloadRequest} (hr : r ∈ requests)
    {facts : LeaseTokenFacts N}
    (hauth : authenticateWorkload verifier r.jwks r.addressAllowed r.token r.verifiedAtMs = .ok facts)
    (hrejected : rejectReplayedToken st facts r.ephemeralPubHex r.nowMs = true) :
    ∃ boundPubHex, leaseBinding st.bindings facts.bindingKeyHex r.nowMs = some boundPubHex ∧
      boundPubHex ≠ r.ephemeralPubHex ∧ ∃ b ∈ log, b.issues = true ∧ b.request.ephemeralPubHex = boundPubHex ∧
        signingInput verifier r.token = signingInput verifier b.request.token := by
  unfold rejectReplayedToken at hrejected
  cases hholder : leaseBinding st.bindings facts.bindingKeyHex r.nowMs with
  | none =>
    rw [hholder] at hrejected
    cases hrejected
  | some boundPubHex =>
    rw [hholder] at hrejected
    obtain ⟨decoded, exp, hdecoded⟩ := authenticateWorkload_ok hauth
    obtain ⟨claim, hrow, hvalue⟩ := Option.bind_eq_some_iff.mp hholder
    split_ifs at hvalue with hlive
    obtain ⟨g, hg, hkey, rfl⟩ := h.keeps.traced facts.bindingKeyHex claim hrow
    obtain ⟨b, hb, hgrant⟩ := List.mem_filterMap.mp hg
    obtain ⟨hissues, hpub, facts', decoded', exp', hdecoded', hkey', -⟩ := grantOf_some hgrant
    refine ⟨boundPubHex, rfl, of_decide_eq_true hrejected, b, hb, hissues, ?_, ?_⟩
    · rw [← hpub]
      exact Option.some.inj hvalue
    · exact (hdecoded.same hdistinct hr (h.requested b hb) hdecoded' (hkey.symm.trans hkey')).1

theorem Bound.serve {verifier : Verifier N} {requests : List WorkloadRequest} {log : List (Served verifier.crypto)}
    {s : Option (LeaseState verifier.crypto)} {nowMs : Nat} (h : Bound verifier requests log s nowMs)
    (hdistinct : SigningInputsDistinct verifier requests) {r : WorkloadRequest} (hr : r ∈ requests)
    (hnear : r.ClockNear) (hedge : r.AtEdge → r.WholeExpiry verifier) (hclock : nowMs ≤ r.nowMs) :
    Bound verifier requests (log ++ [⟨s, r, (Lease.serve verifier s r).2, (Lease.serve verifier s r).1⟩])
      (Lease.serve verifier s r).1 r.nowMs := by
  have hclock' : finite nowMs ≤ finite r.nowMs := finite_le_finite.mpr (by exact_mod_cast hclock)
  have hrequested : ∀ outcome s', ∀ a ∈ log ++ [⟨s, r, outcome, s'⟩], a.request ∈ requests := by
    intro outcome s' a ha
    rcases List.mem_append.mp ha with ha | ha
    · exact h.requested a ha
    · rw [List.mem_singleton.mp ha]
      exact hr
  have hcases := serve_cases verifier s r
  generalize Lease.serve verifier s r = result at hcases ⊢
  cases hcases with
  | issued st st' facts outcome hstate hauth hissues hpasses hbindings =>
    subst hstate
    obtain ⟨decoded, exp, hdecoded⟩ := authenticateWorkload_ok hauth
    let a : Served verifier.crypto := ⟨some st, r, outcome, some st'⟩
    let g : FirstCome.Granted JsString JsString Extended := ⟨⟨r.ephemeralPubHex, facts.bindingExpiresAtMs⟩, facts.bindingKeyHex⟩
    have hgrant : grantOf verifier a = some g := by
      unfold grantOf
      rw [if_pos (show a.issues = true from hissues)]
      show (match authenticateWorkload verifier r.jwks r.addressAllowed r.token r.verifiedAtMs with
        | .ok facts => _
        | .error _ => none) = _
      rw [hauth]
    have hsame : ∀ b ∈ log, ∀ g', grantOf verifier b = some g' → g'.key = g.key →
        signingInput verifier b.request.token = signingInput verifier r.token ∧ g'.deadline = g.deadline := by
      intro b hb g' hg' hkey
      obtain ⟨-, -, facts', decoded', exp', hdecoded', hkey', hdeadline⟩ := grantOf_some hg'
      obtain ⟨hinput, hexpires⟩ := hdecoded'.same hdistinct (h.requested b hb) hr hdecoded (hkey'.symm.trans hkey)
      exact ⟨hinput, hdeadline.trans hexpires⟩
    have hpass : ∀ v, FirstCome.holder st.bindings g.key (finite r.nowMs) = some v → v = g.value := by
      intro v hv
      unfold rejectReplayedToken leaseBinding at hpasses
      rw [hv] at hpasses
      exact not_not.mp (of_decide_eq_false hpasses)
    obtain ⟨hvalues, hkeeps⟩ := (h.keeps.later hclock').record g
      (fun g' hg' hkey => by
        obtain ⟨b, hb, hg'⟩ := List.mem_filterMap.mp hg'
        exact (hsame b hb g' hg' hkey).2)
      (hdecoded.inWindow hnear hedge) hpass
    refine ⟨hrequested _ _, ?_, ?_, ?_⟩
    · intro b hb hib
      rcases List.mem_append.mp hb with hb | hb
      · exact h.granted b hb hib
      · rw [List.mem_singleton.mp hb]
        exact ⟨g, hgrant⟩
    · rw [List.filterMap_append, List.filterMap_cons, hgrant, List.filterMap_nil]
      show FirstCome.Keeps _ st'.bindings _
      rw [hbindings]
      exact hkeeps
    · refine h.binding.snoc_issued hissues (by simp) fun b hb hib hinput => ?_
      obtain ⟨g', hg'⟩ := h.granted b hb hib
      obtain ⟨-, hpub, facts', decoded', exp', hdecoded', hkey, -⟩ := grantOf_some hg'
      have hkeys : g'.key = g.key := by
        show g'.key = facts.bindingKeyHex
        change signingInput verifier r.token = _ at hinput
        rw [hdecoded.signingInput_eq, hdecoded'.signingInput_eq] at hinput
        rw [hkey, hdecoded'.bindingKey, hdecoded.bindingKey, Option.some.inj hinput]
      rw [← hpub]
      exact hvalues g' (List.mem_filterMap.mpr ⟨b, hb, hg'⟩) hkeys
  | kept s' outcome hissues huntouched habsent hreplayed =>
    have hbindings : bindingsOf s' = bindingsOf s := by
      cases s with
      | none => rw [habsent rfl]
      | some st =>
        obtain ⟨st', hst', hsame⟩ := huntouched st rfl
        rw [hst']
        exact hsame.bindings
    refine ⟨hrequested _ _, ?_, ?_, ?_⟩
    · intro b hb hib
      rcases List.mem_append.mp hb with hb | hb
      · exact h.granted b hb hib
      · rw [List.mem_singleton.mp hb] at hib
        exact absurd (hissues.symm.trans hib) Bool.false_ne_true
    · have hnone : grantOf verifier ⟨s, r, outcome, s'⟩ = none := by
        unfold grantOf
        exact if_neg (by simp [Served.issues, hissues])
      rw [List.filterMap_append, List.filterMap_cons, hnone, List.filterMap_nil]
      show FirstCome.Keeps (_ ++ []) _ _
      rw [List.append_nil, hbindings]
      exact h.keeps.later hclock'
    · refine h.binding.snoc_kept hissues ?_ ?_ huntouched habsent
      · intro hbound hout
        obtain ⟨st, facts, rfl, hauth, hrejected⟩ := hreplayed hout
        obtain ⟨boundPubHex, hholder, hne, -⟩ := h.replayed hdistinct hr hauth hrejected
        obtain ⟨decoded, exp, hdecoded⟩ := authenticateWorkload_ok hauth
        unfold Served.boundTo at hbound
        rw [hdecoded.signingInput_eq, Option.bind_some, ← hdecoded.bindingKey] at hbound
        exact hne (Option.some.inj (hholder.symm.trans hbound))
      · intro b hb hib hinput hpub hout
        obtain ⟨st, facts, rfl, hauth, hrejected⟩ := hreplayed hout
        obtain ⟨boundPubHex, -, hne, c, hc, hic, hpub', hinput'⟩ := h.replayed hdistinct hr hauth hrejected
        apply hne
        rw [← hpub', ← hpub]
        exact h.binding.agree c hc b hb hic hib (hinput'.symm.trans hinput)

/-! ## Every run -/

theorem Bound.run {verifier : Verifier N} {requests : List WorkloadRequest}
    (hdistinct : SigningInputsDistinct verifier requests) (events : List (WorkloadEvent verifier.crypto))
    (hrequests : ∀ r ∈ requestsOf events, r ∈ requests) (hnear : ∀ r ∈ requestsOf events, r.ClockNear)
    (hedge : ∀ r ∈ requestsOf events, r.AtEdge → r.WholeExpiry verifier)
    {log : List (Served verifier.crypto)} {s : Option (LeaseState verifier.crypto)} {nowMs : Nat}
    (hclock : (nowMs :: (requestsOf events).flatMap WorkloadRequest.readings).Pairwise (· ≤ ·))
    (h : Bound verifier requests log s nowMs) : FirstComeBinding verifier (log ++ served verifier s events) := by
  induction events generalizing log s nowMs with
  | nil =>
    rw [served, List.append_nil]
    exact h.binding
  | cons event rest ih =>
    cases event with
    | request r =>
      obtain ⟨hr, hrest⟩ := List.forall_mem_cons.mp hrequests
      obtain ⟨hnear', hnearRest⟩ := List.forall_mem_cons.mp hnear
      obtain ⟨hedge', hedgeRest⟩ := List.forall_mem_cons.mp hedge
      obtain ⟨more, hmore⟩ : ∃ more, r.readings = r.nowMs :: more := by
        unfold WorkloadRequest.readings
        split
        · exact ⟨_, rfl⟩
        · exact ⟨_, rfl⟩
      rw [requestsOf, List.flatMap_cons, hmore, List.cons_append] at hclock
      obtain ⟨hfirst, hlater⟩ := List.pairwise_cons.mp hclock
      have hnext := h.serve hdistinct hr hnear' hedge' (hfirst r.nowMs (by simp))
      have hclock' : (r.nowMs :: (requestsOf rest).flatMap WorkloadRequest.readings).Pairwise (· ≤ ·) :=
        hlater.sublist ((List.sublist_append_right more _).cons_cons _)
      have := ih hrest hnearRest hedgeRest hclock' hnext
      rw [List.append_assoc] at this
      exact this
    | init project =>
      refine ih hrequests hnear hedge hclock ⟨h.requested, h.granted, ?_, h.binding⟩
      cases s with
      | none => exact h.keeps
      | some st => exact h.keeps
    | elsewhere project =>
      refine ih hrequests hnear hedge hclock ⟨h.requested, h.granted, ?_, h.binding⟩
      cases s with
      | none => exact h.keeps
      | some st => exact h.keeps

theorem token_bound_to_first_key (verifier : Verifier N) (events : List (WorkloadEvent verifier.crypto))
    (hclock : ((requestsOf events).flatMap WorkloadRequest.readings).Pairwise (· ≤ ·))
    (hnear : ∀ r ∈ requestsOf events, r.ClockNear)
    (hedge : ∀ r ∈ requestsOf events, r.AtEdge → r.WholeExpiry verifier)
    (hdistinct : SigningInputsDistinct verifier (requestsOf events)) :
    FirstComeBinding verifier (served verifier none events) := by
  have hstart : Bound verifier (requestsOf events) [] none 0 :=
    ⟨by simp, by simp, FirstCome.Keeps.empty _, by simp, by simp, by simp, by simp, by simp⟩
  exact hstart.run hdistinct events (fun r hr => hr) hnear hedge (List.pairwise_cons.mpr ⟨fun _ _ => Nat.zero_le _, hclock⟩)

/-! ## A copy of a token

The copy differs in a bit its signature drops, and comes when the token is all but over. -/

def githubIssuer : JsString := lit "https://token.actions.githubusercontent.com"

def workflowGrant : GrantServerPayload where
  serverEncPubHex := exampleGrant.serverEncPubHex
  serverKeyFingerprintHex := exampleGrant.serverKeyFingerprintHex
  scopeEnvironmentIds := [lit "prod"]
  leasePolicy := [{
    issuerUrl := githubIssuer
    audience := lit "maruhi"
    claimConstraints := [{ claimName := lit "repository", claimValue := lit "acme/app" }] }]

def workflowEntries : List ChainEntry :=
  notarizedEntries.take 2 ++
    [exampleEntry 3 (hex 32 0x70d7925989d4a0814b73d0d6cfcfaf9d994c3673f21747d2c3538fb422c139f3)
      (.direct (.grantServer workflowGrant)) "alice" notaryKey
      0xbb9e88beab2c389dd5c50c5c255efe215c935f60efddd2f8a54511851be5d15a53ac8fb2c2ff4653f708396c01ecbc836408124b651f7bc8cb5018f5d1a6c807]

/-- The value of a decimal numeral. -/
def decimalValue (text : JsString) : Option ℚ :=
  match text.splitOn 46 with
  | [whole] => (JsonText.naturals.read whole).map fun n => (n : ℚ)
  | [whole, fraction] => do
    let n ← JsonText.naturals.read whole
    let m ← JsonText.naturals.read fraction
    some (n + m / 10 ^ fraction.length)
  | _ => none

/-- Numbers by their numerals. -/
def decimals : Numbers JsString where
  text := id
  read text := if (decimalValue text).isSome then some text else none
  finite? text := (decimalValue text).bind fun q => value? (nearest q)

def workflowVerifier : Verifier JsString where
  crypto := signedBy [notaryKey] workflowEntries
  numbers := decimals
  supportedIssuers := [githubIssuer]

set_option maxRecDepth 100000 in
theorem workflow_evaluates :
    (stateAfter workflowVerifier.crypto (workflowEntries.map entryJson)).isSome = true := by
  rw [show workflowVerifier.crypto = signedBy [notaryKey] workflowEntries from rfl, signedBy_eq]
  decide +kernel

def workflowChain : VerifiedChain workflowVerifier.crypto where
  entries := workflowEntries.map entryJson
  state := (stateAfter workflowVerifier.crypto (workflowEntries.map entryJson)).get workflow_evaluates
  derived := (Option.some_get workflow_evaluates).symm
  distinct := by decide +kernel

/-- RS256, issued at 1000 s, over at 1300 s. -/
def workflowSigned : JsString :=
  lit "eyJhbGciOiJSUzI1NiIsImtpZCI6ImsxIn0.eyJpc3MiOiJodHRwczovL3Rva2VuLmFjdGlvbnMuZ2l0aHVidXNlcmNvbnRlbnQuY29tIiwic3ViIjoicmVwbzphY21lL2FwcCIsImF1ZCI6Im1hcnVoaSIsImlhdCI6MTAwMCwiZXhwIjoxMzAwLCJyZXBvc2l0b3J5IjoiYWNtZS9hcHAifQ"

/-- Over at 2199023195.55 s. -/
def fractionalSigned : JsString :=
  lit "eyJhbGciOiJSUzI1NiIsImtpZCI6ImsxIn0.eyJpc3MiOiJodHRwczovL3Rva2VuLmFjdGlvbnMuZ2l0aHVidXNlcmNvbnRlbnQuY29tIiwic3ViIjoicmVwbzphY21lL2FwcCIsImF1ZCI6Im1hcnVoaSIsImlhdCI6MTAwMCwiZXhwIjoyMTk5MDIzMTk1LjU1LCJyZXBvc2l0b3J5IjoiYWNtZS9hcHAifQ"

def workflowToken : JsString := workflowSigned ++ lit ".AAA"

def copiedToken : JsString := workflowSigned ++ lit ".AAB"

def fractionalToken : JsString := fractionalSigned ++ lit ".AAA"

def workflowKey : VerificationKey where
  headerAlg := .rs256
  verifies signature signingInput := signature = [0, 0] &&
    (signingInput = Utf8.utf8Encode workflowSigned || signingInput = Utf8.utf8Encode fractionalSigned)

def workflowRequest (token : JsString) (digit : UInt16) (verifiedAtMs nowMs : Nat) (hverified : verifiedAtMs ≤ maxTimeMs)
    (hnow : nowMs ≤ maxTimeMs) : WorkloadRequest where
  token := token
  ephemeralPubHex := List.replicate 64 digit
  environmentId := lit "prod"
  addressAllowed := true
  jwks issuer kid := some (if issuer = githubIssuer && kid = some (lit "k1") then some workflowKey else none)
  verifiedAtMs := verifiedAtMs
  nowMs := nowMs
  laterMs := nowMs
  serverKey := some workflowGrant.serverKeyFingerprintHex
  reads := {
    environmentActive := true
    hasStatement := true
    hasManifest := true
    variableEpochs := []
    serverWraps := [⟨1, List.replicate 64 50, List.replicate 96 51⟩]
    storageRejects := false
    reseal := some }
  call := .lease
  verifiedAtMs_le := hverified
  nowMs_le := hnow

def copiedRun : List (WorkloadEvent workflowVerifier.crypto) :=
  [.init (.start workflowChain false),
    .request (workflowRequest workflowToken 49 1200000 1200000 (by decide) (by decide)),
    .request (workflowRequest copiedToken 52 1359999 1419999 (by decide) (by decide)),
    .request (workflowRequest workflowToken 49 1359999 1419999 (by decide) (by decide))]

def Served.replayed (a : Served crypto) : Bool := a.outcome = .refused .replayed

set_option maxRecDepth 100000 in
theorem copiedRun_outcomes : (served workflowVerifier none copiedRun).map (fun a => (a.issues, a.replayed)) =
    [(true, false), (false, true), (true, false)] := by decide +kernel

set_option maxRecDepth 100000 in
theorem copiedToken_signingInput :
    signingInput workflowVerifier copiedToken = signingInput workflowVerifier workflowToken := by decide +kernel

theorem copiedRun_distinct : SigningInputsDistinct workflowVerifier (requestsOf copiedRun) := by
  have hsame : ∀ r ∈ requestsOf copiedRun, signingInput workflowVerifier r.token = signingInput workflowVerifier workflowToken := by
    intro r hr
    simp only [copiedRun, requestsOf, List.mem_cons, List.not_mem_nil, or_false] at hr
    rcases hr with rfl | rfl | rfl
    · rfl
    · exact copiedToken_signingInput
    · rfl
  intro r hr r' hr' x hx x' hx' _
  rw [hsame r hr] at hx
  rw [hsame r' hr', hx] at hx'
  exact Option.some.inj hx'

set_option maxRecDepth 100000 in
theorem workflowToken_exp : ((decodeSegments workflowVerifier.numbers workflowToken).bind fun decoded =>
    numericClaim workflowVerifier.numbers decoded.claims "exp") = some 1300 ∧
    ((decodeSegments workflowVerifier.numbers copiedToken).bind fun decoded =>
      numericClaim workflowVerifier.numbers decoded.claims "exp") = some 1300 := by decide +kernel

theorem copiedRun_whole : ∀ r ∈ requestsOf copiedRun, r.WholeExpiry workflowVerifier := by
  obtain ⟨hworkflow, hcopied⟩ := workflowToken_exp
  have hwhole : ∀ r : WorkloadRequest, ((decodeSegments workflowVerifier.numbers r.token).bind fun decoded =>
      numericClaim workflowVerifier.numbers decoded.claims "exp") = some 1300 → r.WholeExpiry workflowVerifier := by
    intro r h decoded hdecoded exp hexp q hq
    rw [hdecoded, Option.bind_some, hexp] at h
    exact claimMs_int (k := 1300) (by rw [← hq, Option.some.inj h]; rfl)
  intro r hr
  simp only [copiedRun, requestsOf, List.mem_cons, List.not_mem_nil, or_false] at hr
  rcases hr with rfl | rfl | rfl
  · exact hwhole _ hworkflow
  · exact hwhole _ hcopied
  · exact hwhole _ hworkflow

/-- The copy is refused, and the job that was served first is served again. -/
theorem copied_token_refused : FirstComeBinding workflowVerifier (served workflowVerifier none copiedRun) ∧
    (served workflowVerifier none copiedRun).map (fun a => (a.issues, a.replayed)) =
      [(true, false), (false, true), (true, false)] := by
  refine ⟨token_bound_to_first_key workflowVerifier copiedRun ?_ ?_ (fun r hr _ => copiedRun_whole r hr) copiedRun_distinct,
    copiedRun_outcomes⟩
  · decide
  · intro r hr
    simp only [copiedRun, requestsOf, List.mem_cons, List.not_mem_nil, or_false] at hr
    rcases hr with rfl | rfl | rfl
    · exact ⟨by decide, by decide⟩
    · exact ⟨by decide, by decide⟩
    · exact ⟨by decide, by decide⟩

/-! ## A fraction of a millisecond

Its time is up a quarter of a microsecond after the worker's reading, and the sum with the margin, past 2^41, is rounded
down to the project's. -/

def fractionalRequest (digit : UInt16) : WorkloadRequest :=
  workflowRequest fractionalToken digit 2199023255550 2199023315550 (by decide) (by decide)

def fractionalRun : List (WorkloadEvent workflowVerifier.crypto) :=
  [.init (.start workflowChain false), .request (fractionalRequest 49), .request (fractionalRequest 52)]

set_option maxRecDepth 100000 in
theorem fractionalRun_outcomes :
    (served workflowVerifier none fractionalRun).map (fun a => (a.request.ephemeralPubHex, a.issues)) =
      [(List.replicate 64 49, true), (List.replicate 64 52, true)] := by decide +kernel

/-- At the edge of the clocks a second key is served. -/
theorem fractional_token_served_twice :
    ((requestsOf fractionalRun).flatMap WorkloadRequest.readings).Pairwise (· ≤ ·) ∧
    (∀ r ∈ requestsOf fractionalRun, r.ClockNear) ∧ SigningInputsDistinct workflowVerifier (requestsOf fractionalRun) ∧
    ¬ FirstComeBinding workflowVerifier (served workflowVerifier none fractionalRun) := by
  have htokens : ∀ r ∈ requestsOf fractionalRun, ∃ digit, r = fractionalRequest digit := by
    intro r hr
    simp only [fractionalRun, requestsOf, List.mem_cons, List.not_mem_nil, or_false] at hr
    rcases hr with rfl | rfl
    · exact ⟨49, rfl⟩
    · exact ⟨52, rfl⟩
  refine ⟨by decide, fun r hr => ?_, fun r hr r' hr' x hx x' hx' _ => ?_, fun hbinding => ?_⟩
  · obtain ⟨digit, rfl⟩ := htokens r hr
    exact ⟨(by decide : 2199023315550 ≤ 2199023255550 + (leaseBindingRetentionMarginMs - oidcClockSkewMs)),
      (by decide : 2199023255550 ≤ 2199023315550 + (leaseBindingRetentionMarginMs - oidcClockSkewMs))⟩
  · obtain ⟨digit, rfl⟩ := htokens r hr
    obtain ⟨digit', rfl⟩ := htokens r' hr'
    exact Option.some.inj (hx.symm.trans hx')
  · have houtcomes := fractionalRun_outcomes
    simp only [fractionalRun, served, List.map_cons, List.map_nil, List.cons.injEq, Prod.mk.injEq, and_true] at houtcomes
    obtain ⟨⟨hfirst, hfirstIssues⟩, hsecond, hsecondIssues⟩ := houtcomes
    have hsame := hbinding.agree _ (by simp [fractionalRun, served]) _ (by simp [fractionalRun, served]) hfirstIssues
      hsecondIssues rfl
    rw [hfirst, hsecond] at hsame
    revert hsame
    decide

end Maruhi.Lease
