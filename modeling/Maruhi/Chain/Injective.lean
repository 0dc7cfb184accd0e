import Maruhi.Chain.Texts

/-!
# The canonical bytes determine the entry

Equal encodings have equal fields, field by field and at every nesting. A text comes back up to
what the encoder forgets of it, and exactly where it is well formed.
-/

open Text Utf8 Framing

namespace Maruhi.Chain

/-! ## Fields -/

theorem forall₂_common {α β γ : Type} {R : α → γ → Prop} {S : β → γ → Prop} {l : List α} {m : List β} {cs : List γ}
    (hl : List.Forall₂ R l cs) (hm : List.Forall₂ S m cs) : List.Forall₂ (fun a b => ∃ c, R a c ∧ S b c) l m := by
  induction hl generalizing m with
  | nil => cases hm; exact .nil
  | cons hx _ ih =>
    cases hm with
    | cons hy hrest => exact .cons ⟨_, hx, hy⟩ (ih hrest)

/-- Two fields that are encoded alike. -/
def SameBody (f g : LengthPrefixedField) : Prop := ∃ body, fieldBody f = some body ∧ fieldBody g = some body

theorem sameBody_str {s t : JsString} : SameBody (.str s) (.str t) ↔ utf8Encode s = utf8Encode t := by
  simp [SameBody, fieldBody, eq_comm]

theorem sameBody_bytes {a b : Bytes} : SameBody (.bytes a) (.bytes b) ↔ a = b := by
  simp [SameBody, fieldBody, eq_comm]

theorem decimal_ascii (n : Nat) : ∀ u ∈ decimal n, u.toNat < 0x80 := by
  intro u hu
  have := decimal_unit n u hu
  omega

theorem sameBody_num {m n : Nat} (h : SameBody (.num m) (.num n)) : m = n := by
  obtain ⟨body, hm, hn⟩ := h
  unfold fieldBody at hm hn
  dsimp only at hm hn
  split_ifs at hm hn
  exact decimal_inj (utf8Encode_inj_of_ascii (decimal_ascii m) (Option.some.inj (hm.trans hn.symm)))

theorem fieldOk_eq_some {f : LengthPrefixedField} {body : Bytes} (h : fieldOk f = some body) :
    fieldBody f = some body ∧ body.length < 2 ^ 32 := by
  simp only [fieldOk, Option.bind_eq_bind, Option.bind_eq_some_iff] at h
  obtain ⟨body', hbody, h⟩ := h
  split_ifs at h with hlen
  cases h
  exact ⟨hbody, by omega⟩

/-- No boundary shifts: equal encodings have as many fields, each encoded alike. -/
theorem encodeLengthPrefixed_inj {fs gs : List LengthPrefixedField} {bytes : Bytes}
    (hf : encodeLengthPrefixed fs = some bytes) (hg : encodeLengthPrefixed gs = some bytes) :
    List.Forall₂ SameBody fs gs := by
  unfold encodeLengthPrefixed at hf hg
  obtain ⟨bodies, hbodies, rfl⟩ := Option.map_eq_some_iff.mp hf
  obtain ⟨bodies', hbodies', heq⟩ := Option.map_eq_some_iff.mp hg
  have hfs := mapM_eq_some.mp hbodies
  have hgs := mapM_eq_some.mp hbodies'
  have hsmall : ∀ {fields : List LengthPrefixedField} {bs : List Bytes},
      List.Forall₂ (fun f b => fieldOk f = some b) fields bs → ∀ b ∈ bs, b.length < 2 ^ 32 := by
    intro fields bs h
    induction h with
    | nil => simp
    | cons hx _ ih =>
      intro b hb
      rcases List.mem_cons.mp hb with rfl | hb
      · exact (fieldOk_eq_some hx).2
      · exact ih b hb
  obtain rfl := frames_inj (hsmall hgs) (hsmall hfs) heq
  exact (forall₂_common hfs hgs).imp fun _ _ ⟨body, hx, hy⟩ => ⟨body, (fieldOk_eq_some hx).1, (fieldOk_eq_some hy).1⟩

/-! ## Strings and lists of them -/

theorem isHexText_ascii {bytes : Nat} {s : JsString} (h : isHexText bytes s = true) : ∀ u ∈ s, u.toNat < 0x80 := by
  simp only [isHexText, Bool.and_eq_true] at h
  obtain ⟨-, h⟩ := h
  split at h
  · rename_i decoded hdecoded
    exact decodeHex_ascii s decoded hdecoded
  · cases h

theorem hexText_inj {bytes : Nat} {s t : JsString} (hs : isHexText bytes s = true)
    (h : utf8Encode s = utf8Encode t) : s = t := utf8Encode_inj_of_ascii (isHexText_ascii hs) h

theorem encodeHex_inj_utf8 {a b : Bytes} (h : utf8Encode (encodeHex a) = utf8Encode (encodeHex b)) : a = b :=
  encodeHex_inj (utf8Encode_inj_of_ascii (encodeHex_ascii a) h)

theorem roleName_ascii (role : Role) : ∀ u ∈ roleName role, u.toNat < 0x80 := ascii_of_all (by cases role <;> decide)

theorem roleName_inj {a b : Role} (h : utf8Encode (roleName a) = utf8Encode (roleName b)) : a = b := by
  have := utf8Encode_inj_of_ascii (roleName_ascii a) h
  revert this
  cases a <;> cases b <;> decide

theorem scopeKindName_inj {a b : ScopeKind} (h : utf8Encode (scopeKindName a) = utf8Encode (scopeKindName b)) :
    a = b := by
  cases a <;> cases b <;> first | rfl | exact absurd h (by decide)

theorem approvalTargetOpName_ascii (op : ApprovalTargetOp) : ∀ u ∈ approvalTargetOpName op, u.toNat < 0x80 :=
  ascii_of_all (by cases op <;> decide)

theorem approvalTargetOpName_inj {a b : ApprovalTargetOp} (h : approvalTargetOpName a = approvalTargetOpName b) :
    a = b := by
  have ha := approvalTargetOp?_name a
  rw [h, approvalTargetOp?_name b] at ha
  exact (Option.some.inj ha).symm

theorem encodeStrings_inj {l m : List JsString} {bytes : Bytes} (hl : encodeStrings l = some bytes)
    (hm : encodeStrings m = some bytes) : List.Forall₂ (fun s t => utf8Encode s = utf8Encode t) l m := by
  have h := encodeLengthPrefixed_inj hl hm
  rw [List.forall₂_map_left_iff, List.forall₂_map_right_iff] at h
  exact h.imp fun _ _ => sameBody_str.mp

theorem map_eq_of_forall₂ {α β : Type} {R : α → α → Prop} {f : α → β} {l m : List α} (h : List.Forall₂ R l m)
    (hf : ∀ a ∈ l, ∀ b, R a b → f a = f b) : l.map f = m.map f := by
  induction h with
  | nil => rfl
  | cons hx _ ih =>
    rw [List.map_cons, List.map_cons, hf _ (by simp) _ hx, ih fun a ha => hf a (by simp [ha])]

theorem encodeStrings_texts {l m : List JsString} {bytes : Bytes} (hl : encodeStrings l = some bytes)
    (hm : encodeStrings m = some bytes) : l.map binary = m.map binary :=
  map_eq_of_forall₂ (encodeStrings_inj hl hm) fun _ _ _ => binary_eq_iff.mpr

theorem encodeStrings_ascii {l m : List JsString} {bytes : Bytes} (hl : encodeStrings l = some bytes)
    (hm : encodeStrings m = some bytes) (h : ∀ s ∈ l, ∀ u ∈ s, u.toNat < 0x80) : l = m := by
  have := map_eq_of_forall₂ (f := id) (encodeStrings_inj hl hm) fun s hs t => utf8Encode_inj_of_ascii (h s hs)
  simpa using this

theorem encodeParts_inj {α : Type} {part : α → Option Bytes} {l m : List α} {ls ms : List Bytes} {bytes : Bytes}
    (hl : l.mapM part = some ls) (hm : m.mapM part = some ms)
    (hls : encodeLengthPrefixed (ls.map .bytes) = some bytes) (hms : encodeLengthPrefixed (ms.map .bytes) = some bytes) :
    List.Forall₂ (fun a b => ∃ bytes, part a = some bytes ∧ part b = some bytes) l m := by
  have h := encodeLengthPrefixed_inj hls hms
  rw [List.forall₂_map_left_iff, List.forall₂_map_right_iff] at h
  have hparts : ls = ms := by
    have := map_eq_of_forall₂ (f := id) h fun _ _ _ => sameBody_bytes.mp
    simpa using this
  subst hparts
  exact forall₂_common (mapM_eq_some.mp hl) (mapM_eq_some.mp hm)

/-! ## Payloads -/

theorem canonicalScope_inj {ids ids' : List EnvironmentId} {scope scope' : JsString}
    (h : canonicalScopeEnvironmentsHex ids = some scope) (h' : canonicalScopeEnvironmentsHex ids' = some scope')
    (heq : utf8Encode scope = utf8Encode scope') : ids.map binary = ids'.map binary := by
  obtain ⟨bytes, hbytes, rfl⟩ := Option.map_eq_some_iff.mp h
  obtain ⟨bytes', hbytes', rfl⟩ := Option.map_eq_some_iff.mp h'
  obtain rfl := encodeHex_inj_utf8 heq
  exact encodeStrings_texts hbytes hbytes'

theorem canonicalLeasePolicy_inj {policy policy' : List LeasePolicyIssuer} {bytes : Bytes}
    (h : canonicalLeasePolicyBytes policy = some bytes) (h' : canonicalLeasePolicyBytes policy' = some bytes) :
    policy.map (·.mapTexts binary) = policy'.map (·.mapTexts binary) := by
  simp only [canonicalLeasePolicyBytes, Option.bind_eq_bind, Option.bind_eq_some_iff] at h h'
  obtain ⟨elements, helements, h⟩ := h
  obtain ⟨elements', helements', h'⟩ := h'
  refine map_eq_of_forall₂ (encodeParts_inj helements helements' h h') fun issuer _ issuer' hissuer => ?_
  obtain ⟨bytes, h, h'⟩ := hissuer
  simp only [Option.bind_eq_some_iff] at h h'
  obtain ⟨constraints, hconstraints, list, hlist, h⟩ := h
  obtain ⟨constraints', hconstraints', list', hlist', h'⟩ := h'
  have hfields := encodeLengthPrefixed_inj h h'
  simp only [List.forall₂_cons, List.forall₂_nil_left_iff, and_true, sameBody_str, sameBody_bytes] at hfields
  obtain ⟨hurl, haudience, rfl⟩ := hfields
  have hlists := map_eq_of_forall₂ (f := (·.mapTexts binary)) (encodeParts_inj hconstraints hconstraints' hlist hlist') fun c _ c' hc => ?_
  · unfold LeasePolicyIssuer.mapTexts
    rw [hlists, binary_eq_iff.mpr hurl, binary_eq_iff.mpr haudience]
  · obtain ⟨bytes, hc, hc'⟩ := hc
    have htexts := encodeStrings_inj hc hc'
    simp only [List.forall₂_cons, List.forall₂_nil_left_iff, and_true] at htexts
    unfold LeaseClaimConstraint.mapTexts
    rw [binary_eq_iff.mpr htexts.1, binary_eq_iff.mpr htexts.2]

theorem canonicalCheckpointEnvironments_inj {tuples tuples' : List CheckpointEnvironmentEntry} {bytes : Bytes}
    (h : canonicalCheckpointEnvironmentsBytes tuples = some bytes)
    (h' : canonicalCheckpointEnvironmentsBytes tuples' = some bytes) (hshaped : ∀ tuple ∈ tuples, TupleShaped tuple) :
    tuples.map (·.mapTexts binary) = tuples'.map (·.mapTexts binary) := by
  simp only [canonicalCheckpointEnvironmentsBytes, Option.bind_eq_bind, Option.bind_eq_some_iff] at h h'
  obtain ⟨parts, hparts, h⟩ := h
  obtain ⟨parts', hparts', h'⟩ := h'
  refine map_eq_of_forall₂ (encodeParts_inj hparts hparts' h h') fun tuple htuple tuple' hpart => ?_
  obtain ⟨bytes, hb, hb'⟩ := hpart
  have hfields := encodeLengthPrefixed_inj hb hb'
  simp only [List.forall₂_cons, List.forall₂_nil_left_iff, and_true, sameBody_str] at hfields
  obtain ⟨hid, hepoch, hversion, hsig, hdigest⟩ := hfields
  have hs := hshaped tuple htuple
  obtain ⟨id, epoch, version, sig, digest⟩ := tuple
  obtain ⟨id', epoch', version', sig', digest'⟩ := tuple'
  obtain rfl := sameBody_num hepoch
  obtain rfl := sameBody_num hversion
  obtain rfl := hexText_inj hs.sigHash hsig
  obtain rfl := hexText_inj hs.digest hdigest
  unfold CheckpointEnvironmentEntry.mapTexts
  rw [binary_eq_iff.mpr hid]

/-- Where the operation's name stands among the names. -/
def ProposableOperation.index : ProposableOperation → Nat
  | .genesis _ => 0
  | .addMember _ => 1
  | .removeMember _ => 2
  | .changeRole _ => 3
  | .createEnvironment _ => 4
  | .deleteEnvironment _ => 5
  | .rotateEpoch _ => 6
  | .grantServer _ => 7
  | .revokeServer _ => 8
  | .checkpoint _ => 9
  | .setApprovalPolicy _ => 10
  | .addDevice _ => 11
  | .revokeDevice _ => 12

def ChainOperation.index : ChainOperation → Nat
  | .direct op => op.index
  | .propose _ => 13
  | .approve _ => 14
  | .withdraw _ => 15

def opNames : List JsString := payloadShapes.map Prod.fst ++ [lit "propose", lit "approve", lit "withdraw"]

theorem opNames_nodup : opNames.Nodup := by decide

theorem opNames_ascii : ∀ name ∈ opNames, ∀ u ∈ name, u.toNat < 0x80 := by
  have h : (opNames.all fun name => name.all fun u => decide (u.toNat < 0x80)) = true := by decide
  exact fun name hname => ascii_of_all (List.all_eq_true.mp h name hname)

theorem getElem?_opName (op : ChainOperation) : opNames[op.index]? = some (opName op) := by
  cases op with
  | direct op => cases op <;> rfl
  | _ => rfl

theorem index_eq_of_opName {op op' : ChainOperation} (h : utf8Encode (opName op) = utf8Encode (opName op')) :
    op.index = op'.index := by
  have hop := getElem?_opName op
  have hname := utf8Encode_inj_of_ascii (opNames_ascii _ (List.mem_of_getElem? hop)) h
  apply (List.getElem?_inj (List.getElem?_eq_some_iff.mp hop).1 opNames_nodup).mp
  rw [hop, hname, getElem?_opName]

theorem canonicalProposablePayload_inj {op op' : ProposableOperation} {bytes : Bytes} (hindex : op.index = op'.index)
    (hop : PayloadShaped op) (h : canonicalProposablePayloadBytes op = some bytes)
    (h' : canonicalProposablePayloadBytes op' = some bytes) : op.mapTexts binary = op'.mapTexts binary := by
  cases op <;> cases op' <;> cases hindex
  case genesis.genesis p p' =>
    have htexts := encodeStrings_inj h h'
    simp only [List.forall₂_cons, List.forall₂_nil_left_iff, and_true] at htexts
    obtain ⟨enc, sig⟩ := p
    obtain rfl := hexText_inj hop.enc htexts.1
    obtain rfl := hexText_inj hop.sig htexts.2
    rfl
  case addMember.addMember p p' =>
    simp only [canonicalProposablePayloadBytes, Option.bind_eq_bind, Option.bind_eq_some_iff] at h h'
    obtain ⟨scope, hscope, h⟩ := h
    obtain ⟨scope', hscope', h'⟩ := h'
    have htexts := encodeStrings_inj h h'
    simp only [List.forall₂_cons, List.forall₂_nil_left_iff, and_true] at htexts
    obtain ⟨hid, henc, hsig, hrole, hkind, hids⟩ := htexts
    obtain ⟨⟨kind, ids⟩, id, enc, sig, role⟩ := p
    obtain ⟨⟨kind', ids'⟩, id', enc', sig', role'⟩ := p'
    obtain rfl := hexText_inj hop.2.1.enc henc
    obtain rfl := hexText_inj hop.2.1.sig hsig
    obtain rfl := roleName_inj hrole
    obtain rfl := scopeKindName_inj hkind
    dsimp only [ProposableOperation.mapTexts]
    rw [canonicalScope_inj hscope hscope' hids, binary_eq_iff.mpr hid]
  case removeMember.removeMember p p' =>
    have htexts := encodeStrings_texts h h'
    simp only [List.map_cons, List.map_nil, List.cons.injEq, and_true] at htexts
    dsimp only [ProposableOperation.mapTexts]
    rw [htexts]
  case changeRole.changeRole p p' =>
    simp only [canonicalProposablePayloadBytes, Option.bind_eq_bind, Option.bind_eq_some_iff] at h h'
    obtain ⟨scope, hscope, h⟩ := h
    obtain ⟨scope', hscope', h'⟩ := h'
    have htexts := encodeStrings_inj h h'
    simp only [List.forall₂_cons, List.forall₂_nil_left_iff, and_true] at htexts
    obtain ⟨hid, hrole, hkind, hids⟩ := htexts
    obtain ⟨⟨kind, ids⟩, id, role⟩ := p
    obtain ⟨⟨kind', ids'⟩, id', role'⟩ := p'
    obtain rfl := roleName_inj hrole
    obtain rfl := scopeKindName_inj hkind
    dsimp only [ProposableOperation.mapTexts]
    rw [canonicalScope_inj hscope hscope' hids, binary_eq_iff.mpr hid]
  case createEnvironment.createEnvironment p p' =>
    have htexts := encodeStrings_inj h h'
    simp only [List.forall₂_cons, List.forall₂_nil_left_iff, and_true] at htexts
    obtain ⟨id, dek⟩ := p
    obtain rfl := hexText_inj hop.2 htexts.2
    dsimp only [ProposableOperation.mapTexts]
    rw [binary_eq_iff.mpr htexts.1]
  case deleteEnvironment.deleteEnvironment p p' =>
    have htexts := encodeStrings_texts h h'
    simp only [List.map_cons, List.map_nil, List.cons.injEq, and_true] at htexts
    dsimp only [ProposableOperation.mapTexts]
    rw [htexts]
  case rotateEpoch.rotateEpoch p p' =>
    have hfields := encodeLengthPrefixed_inj h h'
    simp only [List.forall₂_cons, List.forall₂_nil_left_iff, and_true, sameBody_str] at hfields
    obtain ⟨hid, hepoch, hreason, hdek⟩ := hfields
    obtain ⟨id, epoch, reason, dek⟩ := p
    obtain ⟨id', epoch', reason', dek'⟩ := p'
    obtain rfl := sameBody_num hepoch
    obtain rfl := hexText_inj hop.2.2.2 hdek
    dsimp only [ProposableOperation.mapTexts]
    rw [binary_eq_iff.mpr hid, binary_eq_iff.mpr hreason]
  case grantServer.grantServer p p' =>
    simp only [canonicalProposablePayloadBytes, Option.bind_eq_bind, Option.bind_eq_some_iff] at h h'
    obtain ⟨scope, hscope, policy, hpolicy, h⟩ := h
    obtain ⟨scope', hscope', policy', hpolicy', h'⟩ := h'
    have htexts := encodeStrings_inj h h'
    simp only [List.forall₂_cons, List.forall₂_nil_left_iff, and_true] at htexts
    obtain ⟨henc, hfp, hids, hleases⟩ := htexts
    obtain rfl := encodeHex_inj_utf8 hids
    obtain rfl := encodeHex_inj_utf8 hleases
    obtain ⟨enc, fp, ids, leases⟩ := p
    obtain rfl := hexText_inj hop.1 henc
    obtain rfl := hexText_inj hop.2.1 hfp
    dsimp only [ProposableOperation.mapTexts]
    rw [encodeStrings_texts hscope hscope', canonicalLeasePolicy_inj hpolicy hpolicy']
  case revokeServer.revokeServer p p' =>
    have htexts := encodeStrings_inj h h'
    simp only [List.forall₂_cons, List.forall₂_nil_left_iff, and_true] at htexts
    obtain ⟨fp⟩ := p
    obtain rfl := hexText_inj hop htexts
    rfl
  case checkpoint.checkpoint p p' =>
    simp only [canonicalProposablePayloadBytes, Option.bind_eq_bind, Option.bind_eq_some_iff] at h h'
    obtain ⟨tuples, htuples, h⟩ := h
    obtain ⟨tuples', htuples', h'⟩ := h'
    have htexts := encodeStrings_inj h h'
    simp only [List.forall₂_cons, List.forall₂_nil_left_iff, and_true] at htexts
    obtain rfl := encodeHex_inj_utf8 htexts.1
    have haudit : ∀ u ∈ p.auditHeadHashHex, u.toNat < 0x80 := by
      rcases (Bool.or_eq_true _ _).mp hop.2.2 with hempty | hhex
      · rw [List.isEmpty_iff.mp hempty]; simp
      · exact isHexText_ascii hhex
    obtain ⟨environments, audit⟩ := p
    obtain rfl := utf8Encode_inj_of_ascii haudit htexts.2
    dsimp only [ProposableOperation.mapTexts]
    rw [canonicalCheckpointEnvironments_inj htuples htuples' hop.1]
  case setApprovalPolicy.setApprovalPolicy p p' =>
    simp only [canonicalProposablePayloadBytes, Option.bind_eq_bind, Option.bind_eq_some_iff] at h h'
    obtain ⟨ops, hops, h⟩ := h
    obtain ⟨ops', hops', h'⟩ := h'
    have hfields := encodeLengthPrefixed_inj h h'
    simp only [List.forall₂_cons, List.forall₂_nil_left_iff, and_true, sameBody_str] at hfields
    obtain rfl := encodeHex_inj_utf8 hfields.1
    have hnames := encodeStrings_ascii hops hops' fun s hs => by
      obtain ⟨op, -, rfl⟩ := List.mem_map.mp hs
      exact approvalTargetOpName_ascii op
    obtain ⟨ops, required⟩ := p
    obtain ⟨ops', required'⟩ := p'
    obtain rfl := sameBody_num hfields.2
    obtain rfl := List.map_injective_iff.mpr (fun _ _ => approvalTargetOpName_inj) hnames
    rfl
  case addDevice.addDevice p p' =>
    simp only [canonicalProposablePayloadBytes, Option.bind_eq_bind, Option.bind_eq_some_iff] at h h'
    obtain ⟨scope, hscope, h⟩ := h
    obtain ⟨scope', hscope', h'⟩ := h'
    have htexts := encodeStrings_inj h h'
    simp only [List.forall₂_cons, List.forall₂_nil_left_iff, and_true] at htexts
    obtain ⟨henc, hsig, hrole, hkind, hids⟩ := htexts
    obtain ⟨⟨kind, ids⟩, enc, sig, role⟩ := p
    obtain ⟨⟨kind', ids'⟩, enc', sig', role'⟩ := p'
    obtain rfl := hexText_inj hop.1.enc henc
    obtain rfl := hexText_inj hop.1.sig hsig
    obtain rfl := roleName_inj hrole
    obtain rfl := scopeKindName_inj hkind
    dsimp only [ProposableOperation.mapTexts]
    rw [canonicalScope_inj hscope hscope' hids]
  case revokeDevice.revokeDevice p p' =>
    simp only [canonicalProposablePayloadBytes, Option.bind_eq_bind, Option.bind_eq_some_iff] at h h'
    obtain ⟨fps, hfps, h⟩ := h
    obtain ⟨fps', hfps', h'⟩ := h'
    have htexts := encodeStrings_inj h h'
    simp only [List.forall₂_cons, List.forall₂_nil_left_iff, and_true] at htexts
    obtain ⟨hid, hlist⟩ := htexts
    obtain rfl := encodeHex_inj_utf8 hlist
    obtain ⟨id, list⟩ := p
    obtain ⟨id', list'⟩ := p'
    obtain rfl := encodeStrings_ascii hfps hfps' fun fp hfp => isHexText_ascii (hop.2.2.1 fp hfp)
    dsimp only [ProposableOperation.mapTexts]
    rw [binary_eq_iff.mpr hid]

theorem canonicalChainPayload_inj {op op' : ChainOperation} {bytes : Bytes}
    (hname : utf8Encode (opName op) = utf8Encode (opName op')) (hop : OperationShaped op)
    (h : canonicalChainPayloadBytes op = some bytes) (h' : canonicalChainPayloadBytes op' = some bytes) :
    op.mapTexts binary = op'.mapTexts binary := by
  have hindex := index_eq_of_opName hname
  cases op with
  | direct op =>
    cases op' with
    | direct op' => exact congrArg ChainOperation.direct (canonicalProposablePayload_inj hindex hop h h')
    | _ => cases op <;> cases hindex
  | propose p =>
    cases op' with
    | direct op' => cases op' <;> cases hindex
    | propose p' =>
      simp only [canonicalChainPayloadBytes, Option.bind_eq_bind, Option.bind_eq_some_iff] at h h'
      obtain ⟨inner, hinner, h⟩ := h
      obtain ⟨inner', hinner', h'⟩ := h'
      have hfields := encodeLengthPrefixed_inj h h'
      simp only [List.forall₂_cons, List.forall₂_nil_left_iff, and_true, sameBody_str] at hfields
      obtain ⟨hop', hpayload, hexpires⟩ := hfields
      obtain rfl := encodeHex_inj_utf8 hpayload
      obtain ⟨op, expires⟩ := p
      obtain ⟨op', expires'⟩ := p'
      obtain rfl := sameBody_num hexpires
      have hdirect : utf8Encode (opName (.direct op)) = utf8Encode (opName (.direct op')) := hop'
      dsimp only [ChainOperation.mapTexts]
      rw [canonicalProposablePayload_inj (index_eq_of_opName hdirect) hop.1 hinner hinner']
    | _ => cases hindex
  | approve hash =>
    cases op' with
    | direct op' => cases op' <;> cases hindex
    | approve hash' =>
      have htexts := encodeStrings_inj h h'
      simp only [List.forall₂_cons, List.forall₂_nil_left_iff, and_true] at htexts
      obtain rfl := hexText_inj hop htexts
      rfl
    | _ => cases hindex
  | withdraw hash =>
    cases op' with
    | direct op' => cases op' <;> cases hindex
    | withdraw hash' =>
      have htexts := encodeStrings_inj h h'
      simp only [List.forall₂_cons, List.forall₂_nil_left_iff, and_true] at htexts
      obtain rfl := hexText_inj hop htexts
      rfl
    | _ => cases hindex

/-! ## Entries -/

/-- Two entries whose signed parts are equal up to what the encoder forgets of the texts. -/
structure SignedAlike (entry entry' : ChainEntry) : Prop where
  suite : utf8Encode entry.suite = utf8Encode entry'.suite
  seq : entry.seq = entry'.seq
  prevHash : utf8Encode entry.prevHashHex = utf8Encode entry'.prevHashHex
  operation : entry.operation.mapTexts binary = entry'.operation.mapTexts binary
  actor : entry.actor.mapTexts binary = entry'.actor.mapTexts binary
  timestamp : entry.timestampMs = entry'.timestampMs

theorem signedAlike_of_fields {entry entry' : ChainEntry} {payload payload' : Bytes} (hshaped : EntryShaped entry)
    (hpayload : canonicalChainPayloadBytes entry.operation = some payload)
    (hpayload' : canonicalChainPayloadBytes entry'.operation = some payload')
    (hfields : List.Forall₂ SameBody (signedFields entry payload) (signedFields entry' payload')) :
    SignedAlike entry entry' := by
  simp only [signedFields, List.forall₂_cons, List.forall₂_nil_left_iff, and_true, sameBody_str, sameBody_bytes]
    at hfields
  obtain ⟨hsuite, hseq, hprev, hname, huser, hfp, rfl, htime⟩ := hfields
  refine ⟨hsuite, sameBody_num hseq, hprev, canonicalChainPayload_inj hname hshaped.operation hpayload hpayload', ?_,
    sameBody_num htime⟩
  unfold ChainActor.mapTexts
  rw [binary_eq_iff.mpr huser, hexText_inj hshaped.fingerprint hfp]

theorem canonicalSigned_alike {entry entry' : ChainEntry} {bytes : Bytes} (hshaped : EntryShaped entry)
    (h : canonicalChainSignedBytes entry = some bytes) (h' : canonicalChainSignedBytes entry' = some bytes) :
    SignedAlike entry entry' := by
  simp only [canonicalChainSignedBytes, Option.bind_eq_bind, Option.bind_eq_some_iff] at h h'
  obtain ⟨payload, hpayload, h⟩ := h
  obtain ⟨payload', hpayload', h'⟩ := h'
  exact signedAlike_of_fields hshaped hpayload hpayload' (encodeLengthPrefixed_inj h h')

theorem canonicalEntry_alike {entry entry' : ChainEntry} {bytes : Bytes} (hshaped : EntryShaped entry)
    (h : canonicalChainEntryBytes entry = some bytes) (h' : canonicalChainEntryBytes entry' = some bytes) :
    SignedAlike entry entry' ∧ entry.signatureHex = entry'.signatureHex := by
  simp only [canonicalChainEntryBytes, Option.bind_eq_bind, Option.bind_eq_some_iff] at h h'
  obtain ⟨payload, hpayload, h⟩ := h
  obtain ⟨payload', hpayload', h'⟩ := h'
  have hfields := encodeLengthPrefixed_inj h h'
  have hsigned := List.forall₂_take 8 hfields
  have hlast := List.forall₂_drop 8 hfields
  simp only [signedFields, List.cons_append, List.nil_append, List.drop_succ_cons, List.drop_zero, List.forall₂_cons,
    List.forall₂_nil_left_iff, and_true, sameBody_str] at hlast
  exact ⟨signedAlike_of_fields hshaped hpayload hpayload' hsigned, hexText_inj hshaped.signature hlast⟩

/-! ## Well-formed texts -/

/-- Every string of the signed part is well-formed Unicode; hex, names and numbers always are. -/
structure TextsWellFormed (entry : ChainEntry) : Prop where
  suite : wellFormed entry.suite = true
  prevHash : wellFormed entry.prevHashHex = true
  texts : ∀ s ∈ entry.texts, wellFormed s = true

theorem binary_inj_of_wellFormed {s t : JsString} (hs : wellFormed s = true) (ht : wellFormed t = true)
    (h : binary s = binary t) : s = t := utf8Encode_inj_of_wellFormed hs ht (binary_eq_iff.mp h)

theorem mem_texts_of_carried {entry : ChainEntry} {s : JsString}
    (h : s ∈ (carried entry.operation).flatMap fun op => op.stateTexts ++ op.reasons) : s ∈ entry.texts := by
  simp only [List.mem_flatMap, List.mem_append] at h
  obtain ⟨op, hop, hs⟩ := h
  simp only [ChainEntry.texts, ChainEntry.stateTexts, List.mem_append, List.mem_cons, List.mem_flatMap]
  exact hs.imp (fun hs => Or.inr ⟨op, hop, hs⟩) fun hs => ⟨op, hop, hs⟩

/-- The signed bytes determine everything that is signed. -/
theorem signed_bytes_injective (j : Json) (entry entry' : ChainEntry) (bytes : Bytes)
    (hread : checkPayloadShape j = some entry)
    (hwf : TextsWellFormed entry) (hwf' : TextsWellFormed entry')
    (h : canonicalChainSignedBytes entry = some bytes) (h' : canonicalChainSignedBytes entry' = some bytes) :
    entry.suite = entry'.suite ∧ entry.seq = entry'.seq ∧ entry.prevHashHex = entry'.prevHashHex ∧
      entry.operation = entry'.operation ∧ entry.actor = entry'.actor ∧ entry.timestampMs = entry'.timestampMs := by
  have halike := canonicalSigned_alike (checkPayloadShape_shaped hread) h h'
  refine ⟨utf8Encode_inj_of_wellFormed hwf.suite hwf'.suite halike.suite, halike.seq,
    utf8Encode_inj_of_wellFormed hwf.prevHash hwf'.prevHash halike.prevHash, ?_, ?_, halike.timestamp⟩
  · exact ChainOperation.mapTexts_inj halike.operation fun s hs t ht =>
      binary_inj_of_wellFormed (hwf.texts s (mem_texts_of_carried hs)) (hwf'.texts t (mem_texts_of_carried ht))
  · have hactor := halike.actor
    simp only [ChainActor.mapTexts, ChainActor.mk.injEq] at hactor
    have huser : ∀ e : ChainEntry, e.actor.userId ∈ e.texts := fun e => by simp [ChainEntry.texts, ChainEntry.stateTexts]
    have hid := binary_inj_of_wellFormed (hwf.texts _ (huser entry)) (hwf'.texts _ (huser entry')) hactor.1
    have hext : ∀ a b : ChainActor, a.userId = b.userId → a.keyFingerprintHex = b.keyFingerprintHex → a = b := by
      rintro ⟨_, _⟩ ⟨_, _⟩ rfl rfl
      rfl
    exact hext _ _ hid hactor.2

/-- A proposal to grant a server one environment, under a policy of one issuer. -/
def grantProposal : ChainEntry := exampleEntries.getD 4 exampleGenesis

/-- The proposal with the name of the environment cut in two. -/
def cutProposal : ChainEntry :=
  { grantProposal with
    operation := .propose {
      inner := .grantServer { exampleGrant with scopeEnvironmentIds := [lit "pr", lit "od"] }, expiresAtMs := 9000 } }

set_option maxRecDepth 20000 in
theorem grantProposal_facts : checkPayloadShape (entryJson grantProposal) = some grantProposal ∧
    (canonicalChainSignedBytes grantProposal).isSome = true ∧ wellFormed suiteId = true ∧
    wellFormed grantProposal.prevHashHex = true ∧ (∀ s ∈ grantProposal.texts ++ cutProposal.texts, wellFormed s = true) ∧
    grantProposal.operation ≠ cutProposal.operation := by decide +kernel

/-- The same letters in two names are not the same bytes. -/
theorem signed_bytes_injective_example :
    canonicalChainSignedBytes grantProposal ≠ canonicalChainSignedBytes cutProposal := by
  obtain ⟨hread, hsome, hsuite, hprev, htexts, hne⟩ := grantProposal_facts
  obtain ⟨bytes, h⟩ := Option.isSome_iff_exists.mp hsome
  intro hsame
  obtain ⟨-, -, -, hoperation, -, -⟩ := signed_bytes_injective _ grantProposal cutProposal bytes hread
    ⟨hsuite, hprev, fun s hs => htexts s (List.mem_append_left _ hs)⟩
    ⟨hsuite, hprev, fun s hs => htexts s (List.mem_append_right _ hs)⟩ h (hsame ▸ h)
  exact hne hoperation

end Maruhi.Chain
