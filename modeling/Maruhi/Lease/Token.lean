import Maruhi.Chain.Canonical
import Maruhi.Lib.Base64
import Maruhi.Lib.Binary64
import Maruhi.Lib.JsonText
import Maruhi.Lib.Utf8Decode

/-!
# Workload tokens (`verifier.ts`, `base64url.ts`, `handlers-lease.ts`)

A compact JWS is verified on its received text. What it is bound by is the hash of the text its issuer signed.
-/

open Text Binary64

namespace Maruhi.Lease
open Chain

/-! ## Decoding -/

def isBase64UrlUnit (u : UInt16) : Bool :=
  (65 ≤ u.toNat && u.toNat ≤ 90) || (97 ≤ u.toNat && u.toNat ≤ 122) || (48 ≤ u.toNat && u.toNat ≤ 57) || u = 45 || u = 95

def fromUrlUnit (u : UInt16) : UInt16 := if u = 45 then 43 else if u = 95 then 47 else u

def decodeBase64Url (segment : JsString) : Option Bytes :=
  if !segment.all isBase64UrlUnit || segment.length % 4 = 1 then none
  else Base64.atob (segment.map fromUrlUnit ++ Base64.padding segment.length)

/-! ## Numbers -/

/-- A number of the language: its texts, and its value where it is finite. -/
structure Numbers (N : Type) extends Numerals N where
  finite? : N → Option ℚ

variable {N : Type}

def decodeBase64UrlJson (numbers : Numbers N) (segment : JsString) : Option (JsonText.Value N) := do
  let bytes ← decodeBase64Url segment
  JsonText.parse numbers.toNumerals (← Utf8.textDecode bytes)

/-! ## Claims -/

abbrev Claims (N : Type) := JsonText.Members N

def asRecord : JsonText.Value N → Option (Claims N)
  | .obj members => some members
  | _ => none

def stringClaim (claims : Claims N) (name : String) : Option JsString :=
  match claims.get? (lit name) with
  | some (.str value) => if value = [] then none else some value
  | _ => none

def numericClaim (numbers : Numbers N) (claims : Claims N) (name : String) : Option ℚ :=
  match claims.get? (lit name) with
  | some (.num value) => numbers.finite? value
  | _ => none

def stringItems : JsonText.Items N → Option (List JsString)
  | .nil => some []
  | .cons (.str value) rest => (stringItems rest).map (value :: ·)
  | .cons _ _ => none

def audiencesOf (claims : Claims N) : Option (List JsString) :=
  match claims.get? (lit "aud") with
  | some (.str value) => if value = [] then none else some [value]
  | some (.arr items) => (stringItems items).filter (· ≠ [])
  | _ => none

/-! ## Parsing -/

inductive AllowedAlg
  | rs256
  | es256
  deriving DecidableEq, Repr

def allowedAlg (alg : JsString) : Option AllowedAlg :=
  if alg = lit "RS256" then some .rs256 else if alg = lit "ES256" then some .es256 else none

inductive LeaseUnauthorizedReason
  | malformedToken
  | unsupportedAlg
  | unsupportedCrit
  | unsupportedIssuer
  | unknownKey
  | signatureInvalid
  | tokenExpired
  | tokenNotYetValid
  | missingClaim
  | ambiguousAudience
  | tokenReplayed
  deriving DecidableEq, Repr

structure DecodedSegments (N : Type) where
  header : Claims N
  claims : Claims N
  signature : Bytes
  signingInput : Bytes

/-- The bytes the issuer signed: the received segments themselves. -/
def signingInputOf (headerSegment payloadSegment : JsString) : Bytes :=
  Utf8.utf8Encode (headerSegment ++ 46 :: payloadSegment)

def decodeSegments (numbers : Numbers N) (token : JsString) : Option (DecodedSegments N) :=
  match token.splitOn 46 with
  | [headerSegment, payloadSegment, signatureSegment] => do
    let header ← (decodeBase64UrlJson numbers headerSegment).bind asRecord
    let claims ← (decodeBase64UrlJson numbers payloadSegment).bind asRecord
    let signature ← decodeBase64Url signatureSegment
    some ⟨header, claims, signature, signingInputOf headerSegment payloadSegment⟩
  | _ => none

structure ParsedToken (N : Type) where
  alg : AllowedAlg
  kid : Option JsString
  claims : Claims N
  signature : Bytes
  signingInput : Bytes

def parseToken (numbers : Numbers N) (token : JsString) : Except LeaseUnauthorizedReason (ParsedToken N) :=
  match decodeSegments numbers token with
  | none => .error .malformedToken
  | some decoded =>
    if (decoded.header.get? (lit "crit")).isSome then .error .unsupportedCrit
    else match decoded.header.get? (lit "alg") with
    | some (.str alg) =>
      match allowedAlg alg with
      | none => .error .unsupportedAlg
      | some alg => .ok {
          alg := alg
          kid := match decoded.header.get? (lit "kid") with
            | some (.str kid) => some kid
            | _ => none
          claims := decoded.claims
          signature := decoded.signature
          signingInput := decoded.signingInput }
    | _ => .error .unsupportedAlg

/-! ## Times -/

def oidcClockSkewMs : Nat := 60 * 1000

/-- How much longer a binding lives than its token. -/
def leaseBindingRetentionMarginMs : Nat := 2 * oidcClockSkewMs

/-- The last instant a `Date` has. -/
def maxTimeMs : Nat := 8640000000000000

/-- A claim in milliseconds. -/
def claimMs (claim : ℚ) : Extended := nearest (claim * 1000)

def checkTimes (numbers : Numbers N) (claims : Claims N) (nowMs : Nat) : Except LeaseUnauthorizedReason Unit :=
  match numericClaim numbers claims "exp", numericClaim numbers claims "iat" with
  | some exp, some iat =>
    if plus (claimMs exp) oidcClockSkewMs ≤ finite nowMs then .error .tokenExpired
    else if finite nowMs < plus (claimMs iat) (-oidcClockSkewMs) then .error .tokenNotYetValid
    else match numericClaim numbers claims "nbf" with
    | some nbf => if finite nowMs < plus (claimMs nbf) (-oidcClockSkewMs) then .error .tokenNotYetValid else .ok ()
    | none => .ok ()
  | _, _ => .error .missingClaim

/-! ## The verifier -/

/-- A key of an issuer's key set, with the algorithm its own type gives. -/
structure VerificationKey where
  headerAlg : AllowedAlg
  verifies : (signature signingInput : Bytes) → Bool

/-- The keys of the issuers: none where they cannot be fetched, no key where none matches. -/
abbrev Jwks := (issuer : JsString) → (kid : Option JsString) → Option (Option VerificationKey)

structure VerifiedOidcToken (N : Type) where
  issuer : JsString
  subject : JsString
  audiences : List JsString
  claims : Claims N
  expiresAtSec : ℚ
  signingInputHashHex : JsString

inductive LeaseUnavailableReason
  | serverWrapsMissing
  | oidcJwksUnavailable
  | serverKeyUnconfigured
  deriving DecidableEq, Repr

/-- Why a request does not reach its project. -/
inductive AuthenticationError
  | rateLimited
  | unauthorized (reason : LeaseUnauthorizedReason)
  | unavailable (reason : LeaseUnavailableReason)
  deriving DecidableEq, Repr

/-- What a deployment verifies tokens with. -/
structure Verifier (N : Type) where
  crypto : Crypto
  numbers : Numbers N
  supportedIssuers : List JsString

def signingInputHashHex (crypto : Crypto) (signingInput : Bytes) : JsString := encodeHex (crypto.sha256 signingInput)

def verifySignature (jwks : Jwks) (issuer : JsString) (parsed : ParsedToken N) : Except AuthenticationError Unit :=
  match jwks issuer parsed.kid with
  | none => .error (.unavailable .oidcJwksUnavailable)
  | some none => .error (.unauthorized .unknownKey)
  | some (some key) =>
    if parsed.alg ≠ key.headerAlg then .error (.unauthorized .unsupportedAlg)
    else if key.verifies parsed.signature parsed.signingInput then .ok ()
    else .error (.unauthorized .signatureInvalid)

def verify (verifier : Verifier N) (jwks : Jwks) (token : JsString) (nowMs : Nat) :
    Except AuthenticationError (VerifiedOidcToken N) :=
  match parseToken verifier.numbers token with
  | .error reason => .error (.unauthorized reason)
  | .ok parsed =>
    match stringClaim parsed.claims "iss" with
    | none => .error (.unauthorized .missingClaim)
    | some issuer =>
      if issuer ∉ verifier.supportedIssuers then .error (.unauthorized .unsupportedIssuer)
      else match verifySignature jwks issuer parsed with
      | .error error => .error error
      | .ok () =>
        match checkTimes verifier.numbers parsed.claims nowMs with
        | .error reason => .error (.unauthorized reason)
        | .ok () =>
          match stringClaim parsed.claims "sub", audiencesOf parsed.claims,
              numericClaim verifier.numbers parsed.claims "exp" with
          | some subject, some audiences, some expiresAtSec => .ok {
              issuer := issuer
              subject := subject
              audiences := audiences
              claims := parsed.claims
              expiresAtSec := expiresAtSec
              signingInputHashHex := signingInputHashHex verifier.crypto parsed.signingInput }
          | _, _, _ => .error (.unauthorized .missingClaim)

/-! ## The facts a project is given -/

structure LeaseTokenFacts (N : Type) where
  issuer : JsString
  subject : JsString
  audiences : List JsString
  claims : Claims N
  claimsDigestHex : JsString
  bindingKeyHex : JsString
  bindingExpiresAtMs : Extended

/-- None for an empty field. -/
def computeLeaseClaimsDigest (crypto : Crypto) (issuerUrl subject audience : JsString) : Option JsString :=
  if issuerUrl = [] ∨ subject = [] ∨ audience = [] then none
  else (encodeStrings [suiteId ++ lit "/lease-claims", issuerUrl, subject, audience]).map fun bytes =>
    encodeHex (crypto.sha256 bytes)

/-- Of several audiences the digest could name any. -/
def claimsDigestFor (crypto : Crypto) (token : VerifiedOidcToken N) : Except LeaseUnauthorizedReason JsString :=
  match token.audiences with
  | [audience] =>
    match computeLeaseClaimsDigest crypto token.issuer token.subject audience with
    | some digest => .ok digest
    | none => .error .missingClaim
  | _ => .error .ambiguousAudience

/-- The source address comes first, then the token, by the clock of the worker. -/
def authenticateWorkload (verifier : Verifier N) (jwks : Jwks) (addressAllowed : Bool) (token : JsString) (nowMs : Nat) :
    Except AuthenticationError (LeaseTokenFacts N) :=
  if !addressAllowed then .error .rateLimited
  else match verify verifier jwks token nowMs with
  | .error error => .error error
  | .ok verified =>
    match claimsDigestFor verifier.crypto verified with
    | .error reason => .error (.unauthorized reason)
    | .ok claimsDigestHex => .ok {
        issuer := verified.issuer
        subject := verified.subject
        audiences := verified.audiences
        claims := verified.claims
        claimsDigestHex := claimsDigestHex
        bindingKeyHex := verified.signingInputHashHex
        bindingExpiresAtMs := plus (claimMs verified.expiresAtSec) leaseBindingRetentionMarginMs }

/-! ## What the signed bytes fix -/

theorem isBase64UrlUnit_plain {u : UInt16} (h : isBase64UrlUnit u = true) : u.toNat < 0x80 ∧ u ≠ 46 := by
  have hdot : isBase64UrlUnit 46 = false := by decide
  refine ⟨?_, fun hu => by rw [hu, hdot] at h; cases h⟩
  simp only [isBase64UrlUnit, Bool.or_eq_true, Bool.and_eq_true, decide_eq_true_eq] at h
  rcases h with (((h | h) | h) | rfl) | rfl
  · omega
  · omega
  · omega
  · decide
  · decide

theorem decodeBase64UrlJson_units {numbers : Numbers N} {segment : JsString} {value : JsonText.Value N}
    (h : decodeBase64UrlJson numbers segment = some value) : ∀ u ∈ segment, u.toNat < 0x80 ∧ u ≠ 46 := by
  obtain ⟨bytes, hbytes, -⟩ := Option.bind_eq_some_iff.mp h
  unfold decodeBase64Url at hbytes
  split_ifs at hbytes with hrefused
  simp only [Bool.or_eq_true, Bool.not_eq_true', not_or, Bool.not_eq_false] at hrefused
  exact fun u hu => isBase64UrlUnit_plain (List.all_eq_true.mp hrefused.1 u hu)

/-- What a token is read from. -/
structure DecodedFrom (numbers : Numbers N) (decoded : DecodedSegments N) (headerSegment payloadSegment : JsString) :
    Prop where
  header : ∀ u ∈ headerSegment, u.toNat < 0x80 ∧ u ≠ 46
  payload : ∀ u ∈ payloadSegment, u.toNat < 0x80 ∧ u ≠ 46
  claims : (decodeBase64UrlJson numbers payloadSegment).bind asRecord = some decoded.claims
  signingInput : decoded.signingInput = signingInputOf headerSegment payloadSegment

theorem decodeSegments_from {numbers : Numbers N} {token : JsString} {decoded : DecodedSegments N}
    (h : decodeSegments numbers token = some decoded) :
    ∃ headerSegment payloadSegment, DecodedFrom numbers decoded headerSegment payloadSegment := by
  unfold decodeSegments at h
  split at h
  · rename_i headerSegment payloadSegment signatureSegment _
    obtain ⟨header, hheader, h⟩ := Option.bind_eq_some_iff.mp h
    obtain ⟨claims, hclaims, h⟩ := Option.bind_eq_some_iff.mp h
    obtain ⟨signature, -, h⟩ := Option.bind_eq_some_iff.mp h
    cases h
    obtain ⟨value, hvalue, -⟩ := Option.bind_eq_some_iff.mp hheader
    obtain ⟨value', hvalue', -⟩ := Option.bind_eq_some_iff.mp hclaims
    exact ⟨headerSegment, payloadSegment, decodeBase64UrlJson_units hvalue, decodeBase64UrlJson_units hvalue', hclaims, rfl⟩
  · cases h

theorem claims_eq_of_signingInput {numbers : Numbers N} {token token' : JsString} {decoded decoded' : DecodedSegments N}
    (h : decodeSegments numbers token = some decoded) (h' : decodeSegments numbers token' = some decoded')
    (hsame : decoded.signingInput = decoded'.signingInput) : decoded.claims = decoded'.claims := by
  obtain ⟨header, payload, hfrom⟩ := decodeSegments_from h
  obtain ⟨header', payload', hfrom'⟩ := decodeSegments_from h'
  rw [hfrom.signingInput, hfrom'.signingInput] at hsame
  have hascii : ∀ u ∈ header ++ 46 :: payload, u.toNat < 0x80 := by
    intro u hu
    simp only [List.mem_append, List.mem_cons] at hu
    rcases hu with hu | rfl | hu
    · exact (hfrom.header u hu).1
    · decide
    · exact (hfrom.payload u hu).1
  have htext : header ++ 46 :: payload = header' ++ 46 :: payload' := Utf8.utf8Encode_inj_of_ascii hascii hsame
  have hpayload : payload = payload' := by
    have hread : ∀ a b : JsString, (∀ u ∈ a, u.toNat < 0x80 ∧ u ≠ 46) →
        ((a ++ 46 :: b).dropWhile fun u => u ≠ 46) = 46 :: b := by
      intro a b ha
      rw [List.dropWhile_append_of_pos fun u hu => by simpa using (ha u hu).2]
      simp
    have := congrArg (List.dropWhile fun u => decide (u ≠ 46)) htext
    rw [hread header payload hfrom.header, hread header' payload' hfrom'.header] at this
    exact (List.cons.inj this).2
  have hclaims := hfrom.claims
  rw [hpayload, hfrom'.claims] at hclaims
  exact (Option.some.inj hclaims).symm

/-! ## What a verified token comes with -/

/-- The facts are those of the token, and its time was not up by the clock of the worker. -/
structure Authenticated (verifier : Verifier N) (token : JsString) (nowMs : Nat) (facts : LeaseTokenFacts N)
    (decoded : DecodedSegments N) (exp : ℚ) : Prop where
  decodes : decodeSegments verifier.numbers token = some decoded
  expires : numericClaim verifier.numbers decoded.claims "exp" = some exp
  bindingKey : facts.bindingKeyHex = signingInputHashHex verifier.crypto decoded.signingInput
  bindingExpires : facts.bindingExpiresAtMs = plus (claimMs exp) leaseBindingRetentionMarginMs
  inTime : finite nowMs < plus (claimMs exp) oidcClockSkewMs

theorem parseToken_ok {numbers : Numbers N} {token : JsString} {parsed : ParsedToken N}
    (h : parseToken numbers token = .ok parsed) : ∃ decoded, decodeSegments numbers token = some decoded ∧
      parsed.claims = decoded.claims ∧ parsed.signingInput = decoded.signingInput := by
  unfold parseToken at h
  split at h
  · cases h
  · rename_i decoded hdecoded
    split at h
    · cases h
    · split at h
      · split at h
        · cases h
        · cases h
          exact ⟨decoded, hdecoded, rfl, rfl⟩
      · cases h

theorem checkTimes_ok {numbers : Numbers N} {claims : Claims N} {nowMs : Nat}
    (h : checkTimes numbers claims nowMs = .ok ()) : ∃ exp, numericClaim numbers claims "exp" = some exp ∧
      finite nowMs < plus (claimMs exp) oidcClockSkewMs := by
  unfold checkTimes at h
  split at h
  · rename_i exp iat hexp _
    split at h
    · cases h
    · rename_i hlate
      exact ⟨exp, hexp, not_le.mp hlate⟩
  · cases h

theorem authenticateWorkload_ok {verifier : Verifier N} {jwks : Jwks} {addressAllowed : Bool} {token : JsString}
    {nowMs : Nat} {facts : LeaseTokenFacts N}
    (h : authenticateWorkload verifier jwks addressAllowed token nowMs = .ok facts) :
    ∃ decoded exp, Authenticated verifier token nowMs facts decoded exp := by
  unfold authenticateWorkload at h
  split at h
  · cases h
  · split at h
    · cases h
    · rename_i verified hverified
      split at h
      · cases h
      · cases h
        unfold verify at hverified
        split at hverified
        · cases hverified
        · rename_i parsed hparsed
          obtain ⟨decoded, hdecoded, hclaims, hsigned⟩ := parseToken_ok hparsed
          split at hverified
          · cases hverified
          · split at hverified
            · cases hverified
            · split at hverified
              · cases hverified
              · split at hverified
                · cases hverified
                · rename_i htimes
                  obtain ⟨exp, hexp, hlt⟩ := checkTimes_ok htimes
                  split at hverified
                  · rename_i expiresAtSec _ _ hexpires
                    cases hverified
                    rw [hexp] at hexpires
                    cases hexpires
                    exact ⟨decoded, exp, hdecoded, hclaims ▸ hexp, by rw [← hsigned], rfl, hlt⟩
                  · cases hverified

end Maruhi.Lease
