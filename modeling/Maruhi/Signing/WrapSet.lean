import Maruhi.Signing.Resolution

/-!
# The signatures of a registered set (`ensureWrapSignatures`)

The first wrap finds the device, and the rest have to be its own: a set is accepted when one device signed all of it.
-/

open Text Search

namespace Maruhi.Signing
open Chain
open Wraps (DekWrapInput)

variable {crypto : Crypto}

/-- A well-formed wrap whose signature the device's key verifies. -/
structure SignedWrap (crypto : Crypto) (projectId : JsString) (environmentId : EnvironmentId) (signer : MemberWithDevice)
    (wrap : DekWrapInput) : Prop where
  form : (wrapContext projectId environmentId signer.userId wrap).contextInvalidField = none
  signature : isHexText signatureBytes wrap.signatureHex = true
  signed : Verifies crypto (buildDekWrapSignatureBytes (wrapContext projectId environmentId signer.userId wrap))
    wrap.signatureHex signer.sigPubHex

theorem mapError_ok_iff {ε ε' α : Type} {x : Except ε α} {f : ε → ε'} {a : α} : x.mapError f = .ok a ↔ x = .ok a := by
  cases x <;> simp [Except.mapError]

theorem signature_iff {signatureHex : JsString} {signature : Bytes} (h : decodeHex signatureHex = some signature) :
    isHexText signatureBytes signatureHex = true ↔ signature.length = signatureBytes := by
  have hlength := encodeHex_length signature
  rw [decodeHex_eq_some_iff.mp h]
  unfold isHexText
  rw [decodeHex_encodeHex, hlength]
  dsimp only
  rw [Bool.and_eq_true, decide_eq_true_eq, decide_eq_true_eq]
  omega

theorem verifyEd25519Over_ok_iff {ρ : Type} {signedBytes : Option Bytes} {signatureHex sigPubHex : JsString} {key : Bytes}
    {onInvalid : CryptoError ρ} (hkey : decodeHex sigPubHex = some key) :
    verifyEd25519Over crypto signedBytes signatureHex key onInvalid = .ok () ↔
      isHexText signatureBytes signatureHex = true ∧ Verifies crypto signedBytes signatureHex sigPubHex := by
  constructor
  · intro h
    unfold verifyEd25519Over at h
    cases signedBytes with
    | none => cases h
    | some bytes =>
      cases hsignature : decodeHex signatureHex with
      | none => rw [hsignature] at h; cases h
      | some signature =>
        rw [hsignature] at h
        dsimp only at h
        split_ifs at h with hlength hverify
        exact ⟨(signature_iff hsignature).mpr (not_not.mp hlength), key, bytes, signature, hkey, rfl, hsignature, hverify⟩
  · rintro ⟨hform, key', bytes, signature, hkey', rfl, hsignature, hverify⟩
    obtain rfl := Option.some.inj (hkey.symm.trans hkey')
    unfold verifyEd25519Over
    rw [hsignature]
    dsimp only
    rw [if_neg (not_not_intro ((signature_iff hsignature).mp hform)), if_pos hverify]

theorem verifyOneWrapSignature_iff {projectId : JsString} {environmentId : EnvironmentId} {signer : MemberWithDevice}
    {key : Bytes} (hkey : decodeHex signer.sigPubHex = some key) (wrap : DekWrapInput) :
    verifyOneWrapSignature crypto projectId environmentId signer key wrap = .ok () ↔
      SignedWrap crypto projectId environmentId signer wrap := by
  unfold verifyOneWrapSignature
  rw [mapError_ok_iff]
  unfold verifyDekWrapSignature
  cases hform : (wrapContext projectId environmentId signer.userId wrap).contextInvalidField with
  | some field =>
    refine ⟨fun h => (nomatch h), fun h => ?_⟩
    have hnone := h.form
    rw [hform] at hnone
    cases hnone
  | none =>
    change verifyEd25519Over crypto _ _ _ _ = .ok () ↔ _
    rw [verifyEd25519Over_ok_iff hkey]
    exact ⟨fun h => ⟨hform, h.1, h.2⟩, fun h => ⟨h.signature, h.signed⟩⟩

theorem forM_ok_iff {ε α : Type} {f : α → Except ε Unit} {l : List α} :
    l.forM f = .ok () ↔ ∀ x ∈ l, f x = .ok () := by
  induction l with
  | nil => exact ⟨fun _ x hx => (nomatch hx), fun _ => rfl⟩
  | cons x rest ih =>
    rw [List.forall_mem_cons, ← ih]
    change (f x >>= fun _ => rest.forM f) = _ ↔ _
    constructor
    · intro h
      obtain ⟨⟨⟩, hx, hrest⟩ := Run.bind_ok h
      exact ⟨hx, hrest⟩
    · rintro ⟨hx, hrest⟩
      rw [hx]
      exact hrest

theorem verifyFirstWrap_iff {history : ChainHistoryIndex} {u : UserId} {d : MemberWithDevice} (h : Enrolled history u d)
    (project : Project) (environmentId : EnvironmentId) (first : DekWrapInput) (key : Bytes) :
    verifyFirstWrap crypto project environmentId first d = .ok key ↔
      SignedWrap crypto project.projectId environmentId d first ∧ key = keyOf d := by
  obtain ⟨hkey, hlength⟩ := h.key
  have himport : importSignerKey d = .ok (keyOf d) := by
    unfold importSignerKey importSigningPublicKey
    rw [hkey]
    dsimp only
    rw [if_neg (not_not_intro hlength)]
    rfl
  unfold verifyFirstWrap
  rw [himport, ← verifyOneWrapSignature_iff hkey]
  change (verifyOneWrapSignature crypto project.projectId environmentId d (keyOf d) first >>= fun _ => Except.ok (keyOf d)) =
    .ok key ↔ _
  cases verifyOneWrapSignature crypto project.projectId environmentId d (keyOf d) first with
  | error e => exact ⟨fun h => (nomatch h), fun h => (nomatch h.1)⟩
  | ok _ => exact ⟨fun h => ⟨rfl, (Except.ok.inj h).symm⟩, fun h => by rw [h.2]; rfl⟩

/-- A set of wraps is accepted for a device exactly when that device of the member signed every one of them. -/
theorem wrap_set_signed_by_one_device (crypto : Crypto) (entries : List Json) (st : ChainState) (index : ChainHistoryIndex)
    (projectId : JsString) (store : DataStore) (environmentId : EnvironmentId) (u : UserId) (member : ChainMember)
    (wraps : List DekWrapInput) (signer : Option MemberWithDevice)
    (hsha : ∀ bytes, (crypto.sha256 bytes).length = 32) (hexclusive : VerifiesUnderOneKey crypto)
    (h : verifyChainWithHistory crypto entries = .ok (st, index)) (hdistinct : FingerprintsDistinct crypto entries)
    (hmember : st.members.get? u = some member) :
    ensureWrapSignatures crypto ⟨projectId, index, store⟩ environmentId member wraps = .ok signer ↔
      (wraps = [] ∧ signer = none) ∨ (wraps ≠ [] ∧ ∃ device ∈ activeDevicesOf member, signer = some device ∧
        ∀ wrap ∈ wraps, SignedWrap crypto projectId environmentId device wrap) := by
  have henrolled := enrolled_of_member h hdistinct hmember hsha
  cases wraps with
  | nil => simp [ensureWrapSignatures, eq_comm]
  | cons first rest =>
    have hone := firstWrap_oneTest crypto henrolled projectId store environmentId first
    have hunique : ∀ d ∈ activeDevicesOf member, ∀ d' ∈ activeDevicesOf member,
        Signs crypto projectId (.wraps environmentId first) d → Signs crypto projectId (.wraps environmentId first) d' →
        d = d' :=
      fun d hd d' hd' => signer_unique h hdistinct hmember hexclusive projectId _ hd hd'
    have hfound : ∀ device key, withSigningDevice member
        (verifyFirstWrap crypto ⟨projectId, index, store⟩ environmentId first) = .ok (device, key) ↔
        device ∈ activeDevicesOf member ∧ SignedWrap crypto projectId environmentId device first ∧ key = keyOf device := by
      intro device key
      rw [withSigningDevice_ok_iff hone hunique]
      refine and_congr_right fun hd => ?_
      exact verifyFirstWrap_iff (henrolled device hd) _ environmentId first key
    have hrest : ∀ device ∈ activeDevicesOf member,
        (rest.forM (verifyOneWrapSignature crypto projectId environmentId device (keyOf device)) = .ok () ↔
          ∀ wrap ∈ rest, SignedWrap crypto projectId environmentId device wrap) := by
      intro device hd
      rw [forM_ok_iff]
      exact forall₂_congr fun wrap _ => verifyOneWrapSignature_iff (henrolled device hd).key.1 wrap
    unfold ensureWrapSignatures
    dsimp only
    constructor
    · intro haccepted
      obtain ⟨⟨device, key⟩, hdevice, haccepted⟩ := Run.bind_ok haccepted
      obtain ⟨hd, hfirst, rfl⟩ := (hfound device key).mp hdevice
      obtain ⟨⟨⟩, hall, hsigner⟩ := Run.bind_ok haccepted
      refine Or.inr ⟨List.cons_ne_nil _ _, device, hd, (Except.ok.inj hsigner).symm, ?_⟩
      rw [List.forall_mem_cons]
      exact ⟨hfirst, (hrest device hd).mp hall⟩
    · rintro (⟨hnil, -⟩ | ⟨-, device, hd, rfl, hall⟩)
      · cases hnil
      · obtain ⟨hfirst, hall⟩ := List.forall_mem_cons.mp hall
        rw [(hfound device (keyOf device)).mpr ⟨hd, hfirst, rfl⟩]
        change (rest.forM _ >>= fun _ => Except.ok (some device)) = _
        rw [(hrest device hd).mpr hall]
        rfl

/-! ## An example -/

def spareWrap (recipientUserId : JsString) (signature : Nat) : DekWrapInput where
  recipientClass := .member
  recipientUserId := recipientUserId
  suite := suiteId
  epoch := 1
  recipientEncPubHex := notaryKey.enc
  encHex := hex 32 0x11
  ciphertextHex := hex 48 0x22
  signatureHex := hex signatureBytes signature

/-- Two wraps that alice's second device signed. -/
def spareWraps : List DekWrapInput :=
  [spareWrap (lit "alice")
    0x2ebd284410755120c531af1bccf34b7042fc6a8086a0f9de032762adc1155a1cece2e89f1641f47a6106fefe74adfe449698b192ee2f1f0898b72588dbedb008,
  spareWrap (lit "bob")
    0x235d38f8318a429929f97d1c88d3ec08acb40df64eb26baf5835b0f8c5f81f9ed5097706c856810ac05174b1d412e9f3a7474a999a9eabb9b0e88be1525a610c]

def wrappedCrypto : Crypto :=
  alsoSigned keptCrypto spareKey (spareWraps.map fun wrap =>
    (buildDekWrapSignatureBytes (wrapContext (lit "project") (lit "prod") (lit "alice") wrap), wrap.signatureHex))

set_option maxRecDepth 100000 in
theorem wrappedCrypto_facts : withAlice wrappedCrypto (fun _ member => (activeDevicesOf member).any fun d =>
      d.userId = lit "alice" && d.sigPubHex = spareKey.sig) = true ∧
    FingerprintsDistinct wrappedCrypto (keptChain.take 2) ∧
    ∀ entry ∈ keptEntries, ∀ wrap ∈ spareWraps, entry.signatureHex ≠ wrap.signatureHex := by
  rw [wrappedCrypto, alsoSigned_eq]
  decide +kernel

set_option maxRecDepth 100000 in
theorem spareWraps_form : ∀ wrap ∈ spareWraps,
    (wrapContext (lit "project") (lit "prod") (lit "alice") wrap).contextInvalidField = none ∧
      (buildDekWrapSignatureBytes (wrapContext (lit "project") (lit "prod") (lit "alice") wrap)).isSome = true ∧
      isHexText signatureBytes wrap.signatureHex = true ∧ (decodeHex wrap.signatureHex).isSome = true ∧
      (decodeHex spareKey.sig).isSome = true := by
  decide +kernel

theorem spareWraps_signed {device : MemberWithDevice} (huser : device.userId = lit "alice")
    (hkey : device.sigPubHex = spareKey.sig) : ∀ wrap ∈ spareWraps,
      SignedWrap wrappedCrypto (lit "project") (lit "prod") device wrap := by
  intro wrap hwrap
  obtain ⟨hform, hbytes, hhex, hsignature, hdecoded⟩ := spareWraps_form wrap hwrap
  obtain ⟨bytes, hbytes⟩ := Option.isSome_iff_exists.mp hbytes
  obtain ⟨signature, hsignature⟩ := Option.isSome_iff_exists.mp hsignature
  obtain ⟨key, hdecoded⟩ := Option.isSome_iff_exists.mp hdecoded
  refine ⟨by rw [huser]; exact hform, hhex, key, bytes, signature, by rw [hkey]; exact hdecoded, by rw [huser]; exact hbytes,
    hsignature, ?_⟩
  unfold wrappedCrypto alsoSigned
  simp only [Bool.or_eq_true, Bool.and_eq_true, decide_eq_true_eq, List.any_eq_true, List.mem_map]
  exact Or.inr ⟨decodeHex_eq_some_iff.mp hdecoded, _, ⟨wrap, hwrap, rfl⟩, hbytes, decodeHex_eq_some_iff.mp hsignature⟩

/-- The two wraps are accepted as the second device's. -/
theorem wrap_set_signed_by_one_device_example : ∃ st index member device,
    verifyChainWithHistory wrappedCrypto (keptChain.take 2) = .ok (st, index) ∧
    st.members.get? (lit "alice") = some member ∧ device ∈ activeDevicesOf member ∧ device.sigPubHex = spareKey.sig ∧
    ensureWrapSignatures wrappedCrypto (attestedProject index) (lit "prod") member spareWraps = .ok (some device) := by
  obtain ⟨hdevice, hdistinct, hfresh⟩ := wrappedCrypto_facts
  obtain ⟨st, index, member, h, hmember, hcheck⟩ := withAlice_iff.mp hdevice
  simp only [List.any_eq_true, Bool.and_eq_true, decide_eq_true_eq] at hcheck
  obtain ⟨device, hd, huser, hkey⟩ := hcheck
  refine ⟨st, index, member, device, h, hmember, hd, hkey, ?_⟩
  refine (wrap_set_signed_by_one_device wrappedCrypto (keptChain.take 2) st index (lit "project")
    (attestedProject index).store (lit "prod") (lit "alice") member spareWraps (some device) Sha256.length_sha256
    (alsoSigned_exclusive ?_) h hdistinct hmember).mpr
    (Or.inr ⟨List.cons_ne_nil _ _, device, hd, rfl, spareWraps_signed huser hkey⟩)
  intro entry hentry pair hpair
  obtain ⟨wrap, hwrap, rfl⟩ := List.mem_map.mp hpair
  exact hfresh entry hentry wrap hwrap

end Maruhi.Signing
