import Maruhi.Lease.Token
import Maruhi.Lib.FirstCome
import Maruhi.Proposals.Programs

/-!
# Leases and their bindings (`programs-lease.ts`, `data-store-wrap-queries.ts`)

A workload's token is bound to the first ephemeral key it is served for. The lease, the mint and its pre-flight share
one authorization, and the first two record the binding with what they issue.
-/

open Text Binary64

namespace Maruhi.Lease
open Chain Proposals

/-! ## The project -/

abbrev LeaseBindings := FirstCome.Table JsString JsString Extended

/-- A project with its windows and bindings. The mint's window is the project's own. -/
structure LeaseState (crypto : Crypto) where
  project : ProjectState crypto
  issued : Option (Nat × Nat)
  denied : Option (Nat × Nat)
  bindings : LeaseBindings

variable {crypto : Crypto} {N : Type}

def leaseBinding (bindings : LeaseBindings) (bindingKeyHex : JsString) (nowMs : Nat) : Option JsString :=
  FirstCome.holder bindings bindingKeyHex (finite nowMs)

/-- Rows past their time leave first. A key that is still bound stays as it is. -/
def recordLeaseBinding (bindings : LeaseBindings) (bindingKeyHex ephemeralPubHex : JsString) (expiresAtMs : Extended)
    (nowMs : Nat) : LeaseBindings :=
  FirstCome.record bindings bindingKeyHex ⟨ephemeralPubHex, expiresAtMs⟩ (finite nowMs)

inductive LeaseRejection
  | notFound
  | rateLimited (retryAfterSeconds : Nat)
  | unavailable (reason : LeaseUnavailableReason)
  | replayed
  deriving DecidableEq, Repr

def maxLeasesPerWindow : Nat := 300

def maxLeaseDeniedRowsPerWindow : Nat := 100

def admitsDenial (s : LeaseState crypto) (nowMs : Nat) : Bool :=
  (checkLeaseWindow s.denied maxLeaseDeniedRowsPerWindow nowMs).isNone

/-- The denials' window, where it admits one more. -/
def countDenial (s : LeaseState crypto) (nowMs : Nat) : LeaseState crypto :=
  if admitsDenial s nowMs then { s with denied := recordLeaseWindowUse s.denied nowMs } else s

def deniedRow (nowMs : Nat) : LogRow := ⟨.other (lit "server.lease_denied"), nowMs, none, none, none⟩

def recordDenied (s : LeaseState crypto) (nowMs : Nat) : LeaseState crypto :=
  if admitsDenial s nowMs then { countDenial s nowMs with project := s.project.append [deniedRow nowMs] } else s

/-! ## The policy (`lease-policy.ts`) -/

def claimMatches (claims : Claims N) (constraint : LeaseClaimConstraint) : Bool :=
  match claims.get? constraint.claimName with
  | some (.str value) => value = constraint.claimValue
  | _ => false

def elementMatches (element : LeasePolicyIssuer) (facts : LeaseTokenFacts N) : Bool :=
  !element.claimConstraints.isEmpty && element.issuerUrl = facts.issuer && facts.audiences.contains element.audience &&
    element.claimConstraints.all (claimMatches facts.claims)

def leasePolicyAuthorizes (grant : ServerGrant) (facts : LeaseTokenFacts N) : Bool :=
  grant.leasePolicy.any fun element => elementMatches element facts

def grantCoversEnvironment (grant : ServerGrant) (environmentId : EnvironmentId) : Bool :=
  grant.scopeEnvironmentIds.contains environmentId

/-! ## The shared authorization -/

structure ServerWrap where
  epoch : Nat
  encHex : JsString
  ciphertextHex : JsString
  deriving DecidableEq, Repr

/-- What a request reads beside the project's own tables: the environment's rows, the storage guard, and the server
key's rewrapping. No denial depends on which failure the rewrapping is. -/
structure WorkloadReads where
  environmentActive : Bool
  hasStatement : Bool
  hasManifest : Bool
  variableEpochs : List Nat
  serverWraps : List ServerWrap
  storageRejects : Bool
  reseal : List ServerWrap → Option (List ServerWrap)

/-- A token that is bound to another key is refused. -/
def rejectReplayedToken (s : LeaseState crypto) (facts : LeaseTokenFacts N) (ephemeralPubHex : JsString) (nowMs : Nat) :
    Bool :=
  match leaseBinding s.bindings facts.bindingKeyHex nowMs with
  | none => false
  | some boundPubHex => boundPubHex ≠ ephemeralPubHex

def authorizeWorkload (s : LeaseState crypto) (nowMs : Nat) (serverKey : Option KeyFingerprintHex)
    (environmentId : EnvironmentId) (ephemeralPubHex : JsString) (facts : LeaseTokenFacts N) (reads : WorkloadReads) :
    LeaseState crypto × Except LeaseRejection (KeyFingerprintHex × ServerGrant) :=
  match serverKey with
  | none => (s, .error (.unavailable .serverKeyUnconfigured))
  | some fingerprint =>
    match s.project.chain.state.serverGrants.get? fingerprint with
    | none => (recordDenied s nowMs, .error .notFound)
    | some grant =>
      if !leasePolicyAuthorizes grant facts then (recordDenied s nowMs, .error .notFound)
      else if !grantCoversEnvironment grant environmentId then (recordDenied s nowMs, .error .notFound)
      else if rejectReplayedToken s facts ephemeralPubHex nowMs then (recordDenied s nowMs, .error .replayed)
      else if !reads.environmentActive then (recordDenied s nowMs, .error .notFound)
      else (s, .ok (fingerprint, grant))

/-! ## The lease -/

structure LeaseValue where
  environmentId : EnvironmentId
  currentEpoch : Nat
  leases : List ServerWrap
  deriving DecidableEq, Repr

/-- The epochs of the latest values, and the current one, ascending. -/
def neededEpochs (currentEpoch : Nat) (variableEpochs : List Nat) : List Nat :=
  (OrderedMap.setOf (currentEpoch :: variableEpochs)).keys.insertionSort (· ≤ ·)

def availableWraps (wraps : List ServerWrap) : OrderedMap Nat ServerWrap :=
  .ofEntries (wraps.map fun wrap => (wrap.epoch, wrap))

def serverRow (event : String) (fingerprint : KeyFingerprintHex) (environmentId : EnvironmentId) (nowMs : Nat) : LogRow :=
  ⟨.other (lit event), nowMs, some environmentId, none, some fingerprint⟩

def issuedRows (fingerprint : KeyFingerprintHex) (environmentId : EnvironmentId) (nowMs : Nat) (leases : List ServerWrap) :
    List LogRow :=
  leases.map (fun _ => serverRow "server.dek_unwrapped" fingerprint environmentId nowMs) ++
    [serverRow "server.lease_issued" fingerprint environmentId nowMs]

/-- What a request comes to. A defect answers nothing. -/
inductive WorkloadOutcome
  | leased (value : LeaseValue)
  | stored (proposalId : ProposalId) (expiresAtMs : Nat)
  | passed
  | refused (rejection : LeaseRejection)
  | proposalRejected (reason : RotationProposalRejectReason)
  | unauthenticated (error : AuthenticationError)
  | died
  deriving DecidableEq, Repr

def leaseProgram (s : LeaseState crypto) (nowMs : Nat) (serverKey : Option KeyFingerprintHex)
    (environmentId : EnvironmentId) (ephemeralPubHex : JsString) (facts : LeaseTokenFacts N) (reads : WorkloadReads) :
    LeaseState crypto × WorkloadOutcome :=
  match authorizeWorkload s nowMs serverKey environmentId ephemeralPubHex facts reads with
  | (s, .error rejection) => (s, .refused rejection)
  | (s, .ok (fingerprint, _)) =>
    match checkLeaseWindow s.issued maxLeasesPerWindow nowMs with
    | some retryAfterSeconds => (recordDenied s nowMs, .refused (.rateLimited retryAfterSeconds))
    | none =>
      match s.project.chain.state.environments.get? environmentId with
      | none => (s, .died)
      | some environment =>
        if !reads.hasStatement || !reads.hasManifest then (s, .died)
        else
          let epochs := neededEpochs environment.currentEpoch reads.variableEpochs
          match epochs.mapM fun epoch => (availableWraps reads.serverWraps).get? epoch with
          | none => (recordDenied s nowMs, .refused (.unavailable .serverWrapsMissing))
          | some wraps =>
            match reads.reseal wraps with
            | none => (recordDenied s nowMs, .refused (.unavailable .serverWrapsMissing))
            | some leases =>
              ({ s with
                  issued := recordLeaseWindowUse s.issued nowMs
                  bindings := recordLeaseBinding s.bindings facts.bindingKeyHex ephemeralPubHex facts.bindingExpiresAtMs
                    nowMs
                  project := s.project.append (issuedRows fingerprint environmentId nowMs leases) },
                .leased ⟨environmentId, environment.currentEpoch, leases⟩)

/-! ## The mint and its pre-flight -/

def leaseRejectionOf : Proposals.LeaseRejection → LeaseRejection
  | .unavailable => .unavailable .serverKeyUnconfigured
  | .notFound => .notFound
  | .tokenReplayed => .replayed
  | .rateLimited retryAfterSeconds => .rateLimited retryAfterSeconds

def rejected : ProposalRejection → WorkloadOutcome
  | .lease rejection => .refused (leaseRejectionOf rejection)
  | .proposalRejected reason => .proposalRejected reason

/-- The mint's own steps come after the shared authorization. A full window is the one denial they record. -/
def proposeRotationProgram (s : LeaseState crypto) (nowMs : Nat) (serverKey : Option KeyFingerprintHex)
    (environmentId : EnvironmentId) (ephemeralPubHex : JsString) (facts : LeaseTokenFacts N) (reads : WorkloadReads)
    (proposal : RotationProposalInput) : LeaseState crypto × WorkloadOutcome :=
  match authorizeWorkload s nowMs serverKey environmentId ephemeralPubHex facts reads with
  | (s, .error rejection) => (s, .refused rejection)
  | (s, .ok (_, grant)) =>
    let judgment := ⟨.ok grant.grantSeq, admitsDenial s nowMs, reads.storageRejects⟩
    match Proposals.proposeRotationProgram s.project nowMs environmentId judgment facts.claimsDigestHex proposal with
    | (project, .error (.lease rejection)) =>
      ({ countDenial s nowMs with project := project }, .refused (leaseRejectionOf rejection))
    | (project, .error (.proposalRejected reason)) => ({ s with project := project }, .proposalRejected reason)
    | (project, .ok (proposalId, expiresAtMs)) =>
      ({ s with
          project := project
          bindings := recordLeaseBinding s.bindings facts.bindingKeyHex ephemeralPubHex facts.bindingExpiresAtMs nowMs },
        .stored proposalId expiresAtMs)

/-- The clock is read a second time after the authorization. -/
def preflightRotationProgram (s : LeaseState crypto) (nowMs laterMs : Nat) (serverKey : Option KeyFingerprintHex)
    (environmentId : EnvironmentId) (ephemeralPubHex : JsString) (facts : LeaseTokenFacts N) (reads : WorkloadReads)
    (named : List (VariableId × Nat)) (recipients : List (UserId × JsString)) : LeaseState crypto × WorkloadOutcome :=
  match authorizeWorkload s nowMs serverKey environmentId ephemeralPubHex facts reads with
  | (s, .error rejection) => (s, .refused rejection)
  | (s, .ok (_, grant)) =>
    let judgment := ⟨.ok grant.grantSeq, false, reads.storageRejects⟩
    match Proposals.preflightRotationProgram s.project laterMs environmentId judgment named recipients with
    | (project, .error rejection) => ({ s with project := project }, rejected rejection)
    | (project, .ok ()) => ({ s with project := project }, .passed)

/-! ## Requests -/

inductive WorkloadCall
  | lease
  | propose (proposal : RotationProposalInput)
  | preflight (named : List (VariableId × Nat)) (recipients : List (UserId × JsString))

/-- The token is verified by the worker's clock, the rest is judged by the project's. -/
structure WorkloadRequest where
  token : JsString
  ephemeralPubHex : JsString
  environmentId : EnvironmentId
  addressAllowed : Bool
  jwks : Jwks
  verifiedAtMs : Nat
  nowMs : Nat
  laterMs : Nat
  serverKey : Option KeyFingerprintHex
  reads : WorkloadReads
  call : WorkloadCall
  verifiedAtMs_le : verifiedAtMs ≤ maxTimeMs
  nowMs_le : nowMs ≤ maxTimeMs

def runCall (s : LeaseState crypto) (r : WorkloadRequest) (facts : LeaseTokenFacts N) :
    LeaseState crypto × WorkloadOutcome :=
  match r.call with
  | .lease => leaseProgram s r.nowMs r.serverKey r.environmentId r.ephemeralPubHex facts r.reads
  | .propose proposal =>
    proposeRotationProgram s r.nowMs r.serverKey r.environmentId r.ephemeralPubHex facts r.reads proposal
  | .preflight named recipients =>
    preflightRotationProgram s r.nowMs r.laterMs r.serverKey r.environmentId r.ephemeralPubHex facts r.reads named
      recipients

/-- A project that was never initialized has no tables. -/
def serve (verifier : Verifier N) (s : Option (LeaseState verifier.crypto)) (r : WorkloadRequest) :
    Option (LeaseState verifier.crypto) × WorkloadOutcome :=
  match authenticateWorkload verifier r.jwks r.addressAllowed r.token r.verifiedAtMs with
  | .error error => (s, .unauthenticated error)
  | .ok facts =>
    match s with
    | none => (none, .refused (if r.serverKey.isNone then .unavailable .serverKeyUnconfigured else .notFound))
    | some s => ((runCall s r facts).map some id)

end Maruhi.Lease
