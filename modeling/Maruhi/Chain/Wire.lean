import Maruhi.Chain.Runs
import Maruhi.Lib.Sha256

/-!
# Entries as JSON

The value an entry is sent as. What the payload check reads is well shaped, and a well-shaped
entry is read back from its own value.
-/

open Text Framing

namespace Maruhi.Chain

/-! ## The writer -/

def stringsJson (strings : List JsString) : Json := .arr (strings.map .str)

def scopeFields (scope : ScopePayloadFields) : List (String × Json) :=
  [("scopeKind", .str (scopeKindName scope.scopeKind)), ("scopeEnvironmentIds", stringsJson scope.scopeEnvironmentIds)]

def keyFields (encPubHex sigPubHex : JsString) : List (String × Json) :=
  [("encPubHex", .str encPubHex), ("sigPubHex", .str sigPubHex)]

def constraintJson (constraint : LeaseClaimConstraint) : Json :=
  .object [("claimName", .str constraint.claimName), ("claimValue", .str constraint.claimValue)]

def issuerJson (issuer : LeasePolicyIssuer) : Json :=
  .object [("issuerUrl", .str issuer.issuerUrl), ("audience", .str issuer.audience),
    ("claimConstraints", .arr (issuer.claimConstraints.map constraintJson))]

def tupleJson (tuple : CheckpointEnvironmentEntry) : Json :=
  .object [("environmentId", .str tuple.environmentId), ("epoch", .ofNat tuple.epoch),
    ("manifestVersion", .ofNat tuple.manifestVersion), ("manifestSigHashHex", .str tuple.manifestSigHashHex),
    ("valuesDigestHex", .str tuple.valuesDigestHex)]

def proposablePayloadJson : ProposableOperation → Json
  | .genesis p => .object (keyFields p.encPubHex p.sigPubHex)
  | .addMember p =>
    .object ([("targetUserId", .str p.targetUserId)] ++ keyFields p.encPubHex p.sigPubHex ++
      [("role", .str (roleName p.role))] ++ scopeFields p.toScopePayloadFields)
  | .removeMember p => .object [("targetUserId", .str p.targetUserId)]
  | .changeRole p =>
    .object ([("targetUserId", .str p.targetUserId), ("newRole", .str (roleName p.newRole))] ++
      scopeFields p.toScopePayloadFields)
  | .createEnvironment p =>
    .object [("environmentId", .str p.environmentId), ("dekCommitmentHex", .str p.dekCommitmentHex)]
  | .deleteEnvironment p => .object [("environmentId", .str p.environmentId)]
  | .rotateEpoch p =>
    .object [("environmentId", .str p.environmentId), ("newEpoch", .ofNat p.newEpoch), ("reason", .str p.reason),
      ("dekCommitmentHex", .str p.dekCommitmentHex)]
  | .grantServer p =>
    .object [("serverEncPubHex", .str p.serverEncPubHex), ("serverKeyFingerprintHex", .str p.serverKeyFingerprintHex),
      ("scopeEnvironmentIds", stringsJson p.scopeEnvironmentIds), ("leasePolicy", .arr (p.leasePolicy.map issuerJson))]
  | .revokeServer p => .object [("serverKeyFingerprintHex", .str p.serverKeyFingerprintHex)]
  | .checkpoint p =>
    .object [("environments", .arr (p.environments.map tupleJson)), ("auditHeadHashHex", .str p.auditHeadHashHex)]
  | .setApprovalPolicy p =>
    .object [("ops", stringsJson (p.ops.map approvalTargetOpName)), ("requiredApprovals", .ofNat p.requiredApprovals)]
  | .addDevice p =>
    .object (keyFields p.encPubHex p.sigPubHex ++ [("roleCap", .str (roleName p.roleCap))] ++
      scopeFields p.toScopePayloadFields)
  | .revokeDevice p =>
    .object [("targetUserId", .str p.targetUserId), ("deviceFingerprintsHex", stringsJson p.deviceFingerprintsHex)]

attribute [grind =] proposablePayloadJson

def payloadJson : ChainOperation → Json
  | .direct operation => proposablePayloadJson operation
  | .propose p =>
    .object [("inner", .object [("op", .str (proposableOpName p.inner)), ("payload", proposablePayloadJson p.inner)]),
      ("expiresAtMs", .ofNat p.expiresAtMs)]
  | .approve proposalHashHex => .object [("proposalHashHex", .str proposalHashHex)]
  | .withdraw proposalHashHex => .object [("proposalHashHex", .str proposalHashHex)]

def actorJson (actor : ChainActor) : Json :=
  .object [("userId", .str actor.userId), ("keyFingerprintHex", .str actor.keyFingerprintHex)]

def entryJson (entry : ChainEntry) : Json :=
  .object [("suite", .str entry.suite), ("seq", .ofNat entry.seq), ("prevHashHex", .str entry.prevHashHex),
    ("op", .str (opName entry.operation)), ("payload", payloadJson entry.operation), ("actor", actorJson entry.actor),
    ("timestampMs", .ofNat entry.timestampMs), ("signatureHex", .str entry.signatureHex)]

/-! ## Well-shaped entries -/

structure KeysShaped (encPubHex sigPubHex : JsString) : Prop where
  enc : isHexText 32 encPubHex = true
  sig : isHexText 32 sigPubHex = true

structure IdsShaped (ids : List EnvironmentId) : Prop where
  count : ids.length ≤ maxScopeEnvironments
  bounded : ∀ id ∈ ids, isBoundedString id = true

structure ScopeShaped (scope : ScopePayloadFields) : Prop where
  ids : IdsShaped scope.scopeEnvironmentIds
  ok : scopeIdsOk scope = true

structure ConstraintShaped (constraint : LeaseClaimConstraint) : Prop where
  name : isBoundedString constraint.claimName = true
  value : withinFieldBytes constraint.claimValue = true

structure IssuerShaped (issuer : LeasePolicyIssuer) : Prop where
  url : isBoundedString issuer.issuerUrl = true
  audience : isBoundedString issuer.audience = true
  count : issuer.claimConstraints.length ≤ maxLeaseClaimConstraints
  constraints : ∀ constraint ∈ issuer.claimConstraints, ConstraintShaped constraint

structure TupleShaped (tuple : CheckpointEnvironmentEntry) : Prop where
  id : isBoundedString tuple.environmentId = true
  epoch : 1 ≤ tuple.epoch ∧ tuple.epoch ≤ Json.maxSafeInteger
  version : 1 ≤ tuple.manifestVersion ∧ tuple.manifestVersion ≤ Json.maxSafeInteger
  sigHash : isHexText sha256Bytes tuple.manifestSigHashHex = true
  digest : isHexText sha256Bytes tuple.valuesDigestHex = true

def PayloadShaped : ProposableOperation → Prop
  | .genesis p => KeysShaped p.encPubHex p.sigPubHex
  | .addMember p =>
    isBoundedString p.targetUserId = true ∧ KeysShaped p.encPubHex p.sigPubHex ∧ ScopeShaped p.toScopePayloadFields
  | .removeMember p => isBoundedString p.targetUserId = true
  | .changeRole p => isBoundedString p.targetUserId = true ∧ ScopeShaped p.toScopePayloadFields
  | .createEnvironment p => isBoundedString p.environmentId = true ∧ isHexText sha256Bytes p.dekCommitmentHex = true
  | .deleteEnvironment p => isBoundedString p.environmentId = true
  | .rotateEpoch p =>
    isBoundedString p.environmentId = true ∧ (1 ≤ p.newEpoch ∧ p.newEpoch ≤ Json.maxSafeInteger) ∧
      withinFieldBytes p.reason = true ∧ isHexText sha256Bytes p.dekCommitmentHex = true
  | .grantServer p =>
    isHexText 32 p.serverEncPubHex = true ∧ isHexText fingerprintBytes p.serverKeyFingerprintHex = true ∧
      IdsShaped p.scopeEnvironmentIds ∧ p.leasePolicy.length ≤ maxLeasePolicyIssuers ∧
      ∀ issuer ∈ p.leasePolicy, IssuerShaped issuer
  | .revokeServer p => isHexText fingerprintBytes p.serverKeyFingerprintHex = true
  | .checkpoint p =>
    (∀ tuple ∈ p.environments, TupleShaped tuple) ∧ (p.environments.map (·.environmentId)).Nodup ∧
      (p.auditHeadHashHex.isEmpty || isHexText sha256Bytes p.auditHeadHashHex) = true
  | .setApprovalPolicy p =>
    p.requiredApprovals ≤ Json.maxSafeInteger ∧
      (p.requiredApprovals = 0 || minActiveRequiredApprovals ≤ p.requiredApprovals) = true
  | .addDevice p => KeysShaped p.encPubHex p.sigPubHex ∧ ScopeShaped p.toScopePayloadFields
  | .revokeDevice p =>
    isBoundedString p.targetUserId = true ∧
      (1 ≤ p.deviceFingerprintsHex.length ∧ p.deviceFingerprintsHex.length ≤ maxRevokeDeviceFingerprints) ∧
      (∀ fp ∈ p.deviceFingerprintsHex, isHexText fingerprintBytes fp = true) ∧ p.deviceFingerprintsHex.Nodup

def OperationShaped : ChainOperation → Prop
  | .direct operation => PayloadShaped operation
  | .propose p => PayloadShaped p.inner ∧ p.expiresAtMs ≤ Json.maxSafeInteger
  | .approve proposalHashHex => isHexText sha256Bytes proposalHashHex = true
  | .withdraw proposalHashHex => isHexText sha256Bytes proposalHashHex = true

structure EntryShaped (entry : ChainEntry) : Prop where
  timestamp : entry.timestampMs ≤ Json.maxSafeInteger
  userId : isBoundedString entry.actor.userId = true
  fingerprint : isHexText fingerprintBytes entry.actor.keyFingerprintHex = true
  signature : isHexText signatureBytes entry.signatureHex = true
  operation : OperationShaped entry.operation

/-! ## What is read is well shaped -/

theorem boundedId?_some {value : Json} {s : JsString} (h : boundedId? value = some s) : isBoundedString s = true :=
  (Option.filter_eq_some_iff.mp h).2

theorem hexOfLength?_some {bytes : Nat} {value : Json} {s : JsString} (h : hexOfLength? bytes value = some s) :
    isHexText bytes s = true := (Option.filter_eq_some_iff.mp h).2

theorem positive?_some {value : Json} {n : Nat} (h : positive? value = some n) : 1 ≤ n ∧ n ≤ Json.maxSafeInteger := by
  obtain ⟨hn, hpos⟩ := Option.filter_eq_some_iff.mp h
  exact ⟨by simpa using hpos, Json.safeNat?_le hn⟩

theorem forall_of_mapM {β : Type} {f : Json → Option β} {P : β → Prop} (hf : ∀ value b, f value = some b → P b)
    {items : List Json} {bs : List β} (h : items.mapM f = some bs) : ∀ b ∈ bs, P b := by
  have hforall := mapM_eq_some.mp h
  clear h
  induction hforall with
  | nil => simp
  | cons hx _ ih =>
    intro b hb
    rcases List.mem_cons.mp hb with rfl | hb
    · exact hf _ _ hx
    · exact ih b hb

theorem length_of_mapM {β : Type} {f : Json → Option β} {items : List Json} {bs : List β}
    (h : items.mapM f = some bs) : bs.length = items.length := (mapM_eq_some.mp h).length_eq.symm

theorem shapeGenesis_shaped {j : Json} {p : GenesisPayload} (h : shapeGenesis j = some p) :
    KeysShaped p.encPubHex p.sigPubHex := by
  simp only [shapeGenesis, Option.bind_eq_bind, Option.bind_eq_some_iff] at h
  obtain ⟨enc, henc, sig, hsig, heq⟩ := h
  cases heq
  exact ⟨hexOfLength?_some henc, hexOfLength?_some hsig⟩

theorem shapeScope_shaped {j : Json} {scope : ScopePayloadFields} (h : shapeScope j = some scope) :
    ScopeShaped scope := by
  simp only [shapeScope, Option.bind_eq_bind, Option.bind_eq_some_iff] at h
  obtain ⟨_, _, _, _, items, hitems, ids, hids, h⟩ := h
  obtain ⟨heq, hok⟩ := Option.filter_eq_some_iff.mp h
  cases heq
  refine ⟨⟨?_, forall_of_mapM (fun _ _ => boundedId?_some) hids⟩, hok⟩
  rw [length_of_mapM hids]
  simpa using (Option.filter_eq_some_iff.mp hitems).2

theorem shapeLeasePolicyIssuer_shaped {j : Json} {issuer : LeasePolicyIssuer}
    (h : shapeLeasePolicyIssuer j = some issuer) : IssuerShaped issuer := by
  have hconstraint : ∀ value constraint, shapeLeaseClaimConstraint value = some constraint →
      ConstraintShaped constraint := by
    intro value constraint hc
    simp only [shapeLeaseClaimConstraint, Option.bind_eq_bind, Option.bind_eq_some_iff] at hc
    obtain ⟨_, _, name, hname, text, htext, heq⟩ := hc
    cases heq
    exact ⟨boundedId?_some hname, (Option.filter_eq_some_iff.mp htext).2⟩
  simp only [shapeLeasePolicyIssuer, Option.bind_eq_bind, Option.bind_eq_some_iff] at h
  obtain ⟨_, _, url, hurl, audience, haudience, items, hitems, constraints, hconstraints, heq⟩ := h
  cases heq
  refine ⟨boundedId?_some hurl, boundedId?_some haudience, ?_, forall_of_mapM hconstraint hconstraints⟩
  rw [length_of_mapM hconstraints]
  simpa using (Option.filter_eq_some_iff.mp hitems).2

theorem shapeCheckpointEnvironment_shaped {j : Json} {tuple : CheckpointEnvironmentEntry}
    (h : shapeCheckpointEnvironment j = some tuple) : TupleShaped tuple := by
  simp only [shapeCheckpointEnvironment, Option.bind_eq_bind, Option.bind_eq_some_iff] at h
  obtain ⟨_, _, id, hid, epoch, hepoch, version, hversion, sigHash, hsigHash, digest, hdigest, heq⟩ := h
  cases heq
  exact ⟨boundedId?_some hid, positive?_some hepoch, positive?_some hversion, hexOfLength?_some hsigHash,
    hexOfLength?_some hdigest⟩

theorem payloadShapes_shaped : ∀ e ∈ payloadShapes, ∀ payload operation, e.2 payload = some operation →
    PayloadShaped operation := by
  simp only [payloadShapes, List.forall_mem_cons, Option.map_eq_some_iff, forall_exists_index, and_imp,
    forall_apply_eq_imp_iff₂, PayloadShaped, List.not_mem_nil, false_implies, implies_true, and_true]
  refine ⟨fun _ _ => shapeGenesis_shaped, ?_, ?_, ?_, ?_, ?_, ?_, ?_, ?_, ?_, ?_, ?_, ?_⟩
  · intro payload p h
    simp only [shapeAddMember, Option.bind_eq_bind, Option.bind_eq_some_iff] at h
    obtain ⟨id, hid, keys, hkeys, _, _, scope, hscope, heq⟩ := h
    cases heq
    exact ⟨boundedId?_some hid, shapeGenesis_shaped hkeys, shapeScope_shaped hscope⟩
  · intro payload p h
    simp only [shapeRemoveMember, Option.bind_eq_bind, Option.bind_eq_some_iff] at h
    obtain ⟨id, hid, heq⟩ := h
    cases heq
    exact boundedId?_some hid
  · intro payload p h
    simp only [shapeChangeRole, Option.bind_eq_bind, Option.bind_eq_some_iff] at h
    obtain ⟨id, hid, _, _, scope, hscope, heq⟩ := h
    cases heq
    exact ⟨boundedId?_some hid, shapeScope_shaped hscope⟩
  · intro payload p h
    simp only [shapeCreateEnvironment, Option.bind_eq_bind, Option.bind_eq_some_iff] at h
    obtain ⟨id, hid, dek, hdek, heq⟩ := h
    cases heq
    exact ⟨boundedId?_some hid, hexOfLength?_some hdek⟩
  · intro payload p h
    simp only [shapeDeleteEnvironment, Option.bind_eq_bind, Option.bind_eq_some_iff] at h
    obtain ⟨id, hid, heq⟩ := h
    cases heq
    exact boundedId?_some hid
  · intro payload p h
    simp only [shapeRotateEpoch, Option.bind_eq_bind, Option.bind_eq_some_iff] at h
    obtain ⟨id, hid, epoch, hepoch, reason, hreason, dek, hdek, heq⟩ := h
    cases heq
    exact ⟨boundedId?_some hid, positive?_some hepoch, (Option.filter_eq_some_iff.mp hreason).2,
      hexOfLength?_some hdek⟩
  · intro payload p h
    simp only [shapeGrantServer, Option.bind_eq_bind, Option.bind_eq_some_iff] at h
    obtain ⟨enc, henc, fp, hfp, ids, hids, scope, hscope, items, hitems, policy, hpolicy, heq⟩ := h
    cases heq
    refine ⟨hexOfLength?_some henc, hexOfLength?_some hfp, ⟨?_, forall_of_mapM (fun _ _ => boundedId?_some) hscope⟩, ?_,
      forall_of_mapM (fun _ _ => shapeLeasePolicyIssuer_shaped) hpolicy⟩
    · rw [length_of_mapM hscope]
      simpa using (Option.filter_eq_some_iff.mp hids).2
    · rw [length_of_mapM hpolicy]
      simpa using (Option.filter_eq_some_iff.mp hitems).2
  · intro payload p h
    simp only [shapeRevokeServer, Option.bind_eq_bind, Option.bind_eq_some_iff] at h
    obtain ⟨fp, hfp, heq⟩ := h
    cases heq
    exact hexOfLength?_some hfp
  · intro payload p h
    simp only [shapeCheckpoint, Option.bind_eq_bind, Option.bind_eq_some_iff] at h
    obtain ⟨items, _, environments, henvironments, _, hnodup, audit, haudit, heq⟩ := h
    cases heq
    refine ⟨forall_of_mapM (fun _ _ => shapeCheckpointEnvironment_shaped) henvironments, ?_,
      (Option.filter_eq_some_iff.mp haudit).2⟩
    by_contra hdup
    simp [guard, hdup] at hnodup
  · intro payload p h
    simp only [shapeSetApprovalPolicy, Option.bind_eq_bind, Option.bind_eq_some_iff] at h
    obtain ⟨_, _, ops, _, required, hrequired, heq⟩ := h
    cases heq
    obtain ⟨hsafe, hmin⟩ := Option.filter_eq_some_iff.mp hrequired
    exact ⟨Json.safeNat?_le hsafe, hmin⟩
  · intro payload p h
    simp only [shapeAddDevice, Option.bind_eq_bind, Option.bind_eq_some_iff] at h
    obtain ⟨keys, hkeys, _, _, scope, hscope, heq⟩ := h
    cases heq
    exact ⟨shapeGenesis_shaped hkeys, shapeScope_shaped hscope⟩
  · intro payload p h
    simp only [shapeRevokeDevice, Option.bind_eq_bind, Option.bind_eq_some_iff] at h
    obtain ⟨id, hid, items, hitems, fps, hfps, _, hnodup, heq⟩ := h
    cases heq
    refine ⟨boundedId?_some hid, ?_, forall_of_mapM (fun _ _ => hexOfLength?_some) hfps, ?_⟩
    · rw [length_of_mapM hfps]
      simpa using (Option.filter_eq_some_iff.mp hitems).2
    · by_contra hdup
      simp [guard, hdup] at hnodup

theorem proposableShape_shaped {op : JsString} {payload : Json} {operation : ProposableOperation}
    (h : proposableShape op payload = some operation) : PayloadShaped operation := by
  simp only [proposableShape, Option.bind_eq_bind, Option.bind_eq_some_iff] at h
  obtain ⟨shape, hshape, h⟩ := h
  obtain ⟨l, r, hmem, -⟩ := List.lookup_eq_some_iff.mp hshape
  exact payloadShapes_shaped (op, shape) (hmem ▸ by simp) payload operation h

theorem operationShapeOk_shaped {op payload : Json} {operation : ChainOperation}
    (h : operationShapeOk op payload = some operation) : OperationShaped operation := by
  simp only [operationShapeOk, Option.bind_eq_bind, Option.bind_eq_some_iff] at h
  obtain ⟨op, -, _, -, h⟩ := h
  split_ifs at h with hpropose happrove hwithdraw
  · obtain ⟨p, hp, rfl⟩ := Option.map_eq_some_iff.mp h
    simp only [shapePropose, Option.bind_eq_bind, Option.bind_eq_some_iff] at hp
    obtain ⟨_, _, innerOp, _, _, _, inner, hinner, expires, hexpires, heq⟩ := hp
    cases heq
    exact ⟨proposableShape_shaped hinner, Json.safeNat?_le hexpires⟩
  · obtain ⟨hash, hhash, rfl⟩ := Option.map_eq_some_iff.mp h
    exact hexOfLength?_some hhash
  · obtain ⟨hash, hhash, rfl⟩ := Option.map_eq_some_iff.mp h
    exact hexOfLength?_some hhash
  · obtain ⟨operation, hoperation, rfl⟩ := Option.map_eq_some_iff.mp h
    exact proposableShape_shaped hoperation

theorem checkPayloadShape_shaped {j : Json} {entry : ChainEntry} (h : checkPayloadShape j = some entry) :
    EntryShaped entry := by
  simp only [checkPayloadShape, Option.bind_eq_bind, Option.bind_eq_some_iff] at h
  obtain ⟨time, htime, actor, hactor, sig, hsig, operation, hoperation, suite, _, seq, _, prev, _, heq⟩ := h
  cases heq
  simp only [shapeActor, Option.bind_eq_bind, Option.bind_eq_some_iff] at hactor
  obtain ⟨_, _, userId, huser, fp, hfp, heq⟩ := hactor
  cases heq
  exact ⟨Json.safeNat?_le htime, boundedId?_some huser, hexOfLength?_some hfp, hexOfLength?_some hsig,
    operationShapeOk_shaped hoperation⟩

theorem operationsIn_shaped {entries : List Json} : ∀ op ∈ operationsIn entries, PayloadShaped op := by
  intro op hop
  simp only [operationsIn, List.mem_flatMap, operationsOf] at hop
  obtain ⟨j, -, hj⟩ := hop
  split at hj
  · rename_i entry hentry
    have hshaped := (checkPayloadShape_shaped hentry).operation
    generalize entry.operation = operation at hj hshaped
    cases operation with
    | direct direct => rw [List.mem_singleton.mp hj]; exact hshaped
    | propose p => rw [List.mem_singleton.mp hj]; exact hshaped.1
    | approve proposalHashHex => cases hj
    | withdraw proposalHashHex => cases hj
  · cases hj

/-! ## What is written is read back -/

@[simp] theorem boundedId?_str {s : JsString} (h : isBoundedString s = true) : boundedId? (.str s) = some s := by
  simp [boundedId?, h]

@[simp] theorem hexOfLength?_str {bytes : Nat} {s : JsString} (h : isHexText bytes s = true) :
    hexOfLength? bytes (.str s) = some s := by
  simp [hexOfLength?, h]

@[simp] theorem positive?_ofNat {n : Nat} (h : 1 ≤ n ∧ n ≤ Json.maxSafeInteger) : positive? (.ofNat n) = some n := by
  simp [positive?, Json.safeNat?_ofNat h.2, h.1]

@[simp] theorem role?_roleName (role : Role) : role? (.str (roleName role)) = some role := by cases role <;> rfl

@[simp] theorem approvalTargetOp?_name (op : ApprovalTargetOp) :
    approvalTargetOp? (.str (approvalTargetOpName op)) = some op := by
  cases op <;> rfl

theorem mapM_map {β : Type} {f : Json → Option β} {w : β → Json} {bs : List β}
    (h : ∀ b ∈ bs, f (w b) = some b) : (bs.map w).mapM f = some bs := by
  induction bs with
  | nil => rfl
  | cons b rest ih => simp [h b (by simp), ih fun x hx => h x (by simp [hx])]

section RoundTrip

attribute [local simp] Json.get Json.object Json.find? List.lookup_cons lit keyFields scopeFields
  stringsJson Option.filter_some

theorem scopeKind_find (kind : ScopeKind) :
    [ScopeKind.all, .listed].find? (fun k => scopeKindName k = scopeKindName kind) = some kind := by
  cases kind <;> rfl

theorem shapeScope_object {scope : ScopePayloadFields} (h : ScopeShaped scope) (fields : List (String × Json)) :
    shapeScope (.object (fields ++ scopeFields scope)) = some scope := by
  have hids := mapM_map (w := Json.str) fun id hid => boundedId?_str (h.ids.bounded id hid)
  have hcount := h.ids.count
  have hok := h.ok
  have hkind := scopeKind_find scope.scopeKind
  simp [shapeScope, hids, hcount, hkind, hok]

theorem shapeLeaseClaimConstraint_json {constraint : LeaseClaimConstraint} (h : ConstraintShaped constraint) :
    shapeLeaseClaimConstraint (constraintJson constraint) = some constraint := by
  simp [shapeLeaseClaimConstraint, constraintJson, h.name, h.value]

theorem shapeLeasePolicyIssuer_json {issuer : LeasePolicyIssuer} (h : IssuerShaped issuer) :
    shapeLeasePolicyIssuer (issuerJson issuer) = some issuer := by
  have hconstraints := mapM_map fun c hc => shapeLeaseClaimConstraint_json (h.constraints c hc)
  simp [shapeLeasePolicyIssuer, issuerJson, h.url, h.audience, h.count, hconstraints]

theorem shapeCheckpointEnvironment_json {tuple : CheckpointEnvironmentEntry} (h : TupleShaped tuple) :
    shapeCheckpointEnvironment (tupleJson tuple) = some tuple := by
  simp [shapeCheckpointEnvironment, tupleJson, h.id, h.epoch, h.version, h.sigHash, h.digest]

theorem proposableShape_json (op : ProposableOperation) (h : PayloadShaped op) :
    proposableShape (proposableOpName op) (proposablePayloadJson op) = some op := by
  cases op with
  | genesis p => simp [proposableShape, payloadShapes, proposableOpName, proposablePayloadJson, shapeGenesis, h.enc, h.sig]
  | addMember p =>
    obtain ⟨hid, hkeys, hscope⟩ := h
    have hread := shapeScope_object hscope
      ([("targetUserId", .str p.targetUserId)] ++ keyFields p.encPubHex p.sigPubHex ++ [("role", .str (roleName p.role))])
    simp at hread
    simp [proposableShape, payloadShapes, proposableOpName, proposablePayloadJson, shapeAddMember, hread, shapeGenesis, hid, hkeys.enc, hkeys.sig]
  | removeMember p => 
    have h : isBoundedString p.targetUserId = true := h
    simp [proposableShape, payloadShapes, proposableOpName, proposablePayloadJson, shapeRemoveMember, h]
  | changeRole p =>
    obtain ⟨hid, hscope⟩ := h
    have hread := shapeScope_object hscope
      [("targetUserId", .str p.targetUserId), ("newRole", .str (roleName p.newRole))]
    simp at hread
    simp [proposableShape, payloadShapes, proposableOpName, proposablePayloadJson, shapeChangeRole, hread, hid]
  | createEnvironment p =>
    simp [proposableShape, payloadShapes, proposableOpName, proposablePayloadJson, shapeCreateEnvironment, h.1, h.2]
  | deleteEnvironment p =>
    have h : isBoundedString p.environmentId = true := h
    simp [proposableShape, payloadShapes, proposableOpName, proposablePayloadJson, shapeDeleteEnvironment, h]
  | rotateEpoch p =>
    obtain ⟨hid, hepoch, hreason, hdek⟩ := h
    simp [proposableShape, payloadShapes, proposableOpName, proposablePayloadJson, shapeRotateEpoch, hid, hepoch, hreason, hdek]
  | grantServer p =>
    obtain ⟨henc, hfp, hids, hcount, hissuers⟩ := h
    have hscope := mapM_map (w := Json.str) fun id hid => boundedId?_str (hids.bounded id hid)
    have hpolicy := mapM_map fun issuer hissuer => shapeLeasePolicyIssuer_json (hissuers issuer hissuer)
    simp [proposableShape, payloadShapes, proposableOpName, proposablePayloadJson, shapeGrantServer, henc, hfp, hids.count, hcount, hscope, hpolicy]
  | revokeServer p =>
    have h : isHexText fingerprintBytes p.serverKeyFingerprintHex = true := h
    simp [proposableShape, payloadShapes, proposableOpName, proposablePayloadJson, shapeRevokeServer, h]
  | checkpoint p =>
    obtain ⟨htuples, hnodup, haudit⟩ := h
    have hread := mapM_map fun tuple htuple => shapeCheckpointEnvironment_json (htuples tuple htuple)
    simp only [Bool.or_eq_true, List.isEmpty_iff] at haudit
    simp [proposableShape, payloadShapes, proposableOpName, proposablePayloadJson, shapeCheckpoint, hread, hnodup, haudit]
  | setApprovalPolicy p =>
    obtain ⟨hsafe, hmin⟩ := h
    have hread : p.ops.mapM (approvalTargetOp? ∘ Json.str ∘ approvalTargetOpName) = some p.ops := by
      rw [← List.mapM_map]
      exact mapM_map fun op _ => approvalTargetOp?_name op
    simp [proposableShape, payloadShapes, proposableOpName, proposablePayloadJson, shapeSetApprovalPolicy, Json.safeNat?_ofNat hsafe, hread, hmin]
  | addDevice p =>
    obtain ⟨hkeys, hscope⟩ := h
    have hread := shapeScope_object hscope
      (keyFields p.encPubHex p.sigPubHex ++ [("roleCap", .str (roleName p.roleCap))])
    simp at hread
    simp [proposableShape, payloadShapes, proposableOpName, proposablePayloadJson, shapeAddDevice, hread, shapeGenesis, hkeys.enc, hkeys.sig]
  | revokeDevice p =>
    obtain ⟨hid, hcount, hfps, hnodup⟩ := h
    have hread := mapM_map (w := Json.str) fun fp hfp => hexOfLength?_str (hfps fp hfp)
    simp [proposableShape, payloadShapes, proposableOpName, proposablePayloadJson, shapeRevokeDevice, hid, hcount, hread, hnodup]

theorem proposableOpName_ne (op : ProposableOperation) :
    proposableOpName op ≠ lit "propose" ∧ proposableOpName op ≠ lit "approve" ∧ proposableOpName op ≠ lit "withdraw" := by
  cases op <;> simp only [proposableOpName] <;> decide

theorem operationShapeOk_json (op : ChainOperation) (h : OperationShaped op) :
    operationShapeOk (.str (opName op)) (payloadJson op) = some op := by
  have hrecord : ∀ op, (proposablePayloadJson op).isRecord = true := fun op => by cases op <;> rfl
  cases op with
  | direct op =>
    have hread := proposableShape_json op h
    obtain ⟨hpropose, happrove, hwithdraw⟩ := proposableOpName_ne op
    simp [-lit, operationShapeOk, opName, payloadJson, hrecord, hread, hpropose, happrove, hwithdraw]
  | propose p =>
    have hread := proposableShape_json p.inner h.1
    have hexpires := Json.safeNat?_ofNat h.2
    simp [operationShapeOk, opName, payloadJson, shapePropose, hrecord, hread, hexpires]
  | approve hash =>
    have h : isHexText sha256Bytes hash = true := h
    simp [operationShapeOk, opName, payloadJson, shapeProposalRef, h]
  | withdraw hash =>
    have h : isHexText sha256Bytes hash = true := h
    simp [operationShapeOk, opName, payloadJson, shapeProposalRef, h]

/-- A well-shaped entry is read back from the value it is sent as. -/
theorem checkPayloadShape_json (entry : ChainEntry) (h : EntryShaped entry) :
    checkPayloadShape (entryJson entry) = some entry := by
  have hread := operationShapeOk_json entry.operation h.operation
  have htime := Json.safeNat?_ofNat h.timestamp
  simp [checkPayloadShape, entryJson, shapeActor, actorJson, hread, htime, h.userId, h.fingerprint, h.signature]

end RoundTrip

/-! ## An example

A chain of two owners under a policy, with keys and signatures as Ed25519 makes them. -/

def hex (bytes n : Nat) : JsString := encodeHex (Sha256.bigEndian n bytes)

structure ExampleKey where
  enc : JsString
  sig : JsString
  fingerprint : KeyFingerprintHex

def aliceKey : ExampleKey where
  enc := hex 32 0x3a65dc844f62b1659a6d355be2290e49eb566a3605c2f7248da2de32046d7576
  sig := hex 32 0xfcb9d0fa43cf478485531b22ed80a0514fe67ff7ccfdffd6e7c475e0b7716cd0
  fingerprint := hex 16 0x0fc6d4364d001138f46bec3a22fb2ede

def laptopKey : ExampleKey where
  enc := hex 32 0x9c1895698aa57c2904b44189610bc000d7bbe43d411c9e5bfe8d06fddee66e28
  sig := hex 32 0x96cf3f74001e2727539cce55399b943d5678a052f0961659018eb41216913665
  fingerprint := hex 16 0x23eee2e402a0d144aeda1c8e020df570

def bobKey : ExampleKey where
  enc := hex 32 0xa25327a0aa2398df74216ca585d2fe6ee4acc5e3e9e95ebc0086cd4547d86113
  sig := hex 32 0x99f447216df9760f5c69622429163f10fe425d862b5322ce2a8ab2f7d2eb66d4
  fingerprint := hex 16 0x6b661635ebe67eac75d983dac173b9b4

def exampleGrant : GrantServerPayload where
  serverEncPubHex := hex 32 0x137a5642c221f78df59ded75b87f8f064d0d13c10af615221d0dbdc29760874b
  serverKeyFingerprintHex := hex 16 0x6272ca5aab977a8ed4be6804e8874dc0
  scopeEnvironmentIds := [lit "prod"]
  leasePolicy := [{
    issuerUrl := lit "https://ci.example"
    audience := lit "maruhi"
    claimConstraints := [{ claimName := lit "ref", claimValue := lit "main" }] }]

def notaryKey : ExampleKey where
  enc := hex 32 0x65e43776903ef1055702341f0f79e94b8a90637021557fbce14a72d3a3e73e86
  sig := hex 32 0x6af31e589cb5e5ea80fba2821f4cb77cda2a56cb3918f4131c0815a2b65fab4f
  fingerprint := hex 16 0x0a0e34beb56e57e7e39ae63764c1ebea

def exampleEntry (seq : Nat) (prevHashHex : JsString) (operation : ChainOperation) (userId : String)
    (key : ExampleKey) (signature : Nat) : ChainEntry where
  suite := suiteId
  seq := seq
  prevHashHex := prevHashHex
  operation := operation
  actor := { userId := lit userId, keyFingerprintHex := key.fingerprint }
  timestampMs := 1000 * seq
  signatureHex := hex signatureBytes signature

def exampleGenesis : ChainEntry :=
  exampleEntry 1 genesisPrevHash
    (.direct (.genesis { encPubHex := aliceKey.enc, sigPubHex := aliceKey.sig }))
    "alice" aliceKey
    0xc37a5bf097aafc7c98d8d7d1db38cc3a4d22c69dd683c51b0021094c89069ced067376a3d51827de56c082c278090f8ebf04540c06c2a208742b47ee1c9b9509

def exampleEntries : List ChainEntry :=
  [exampleGenesis,
  exampleEntry 2 (hex 32 0xf43bf288c234843f9b15a0bc507c1d93ac4255d10f2e7d7cfb3c6210e901e4b1)
    (.direct (.addMember {
      targetUserId := lit "bob", encPubHex := bobKey.enc, sigPubHex := bobKey.sig
      role := .owner, scopeKind := .all, scopeEnvironmentIds := [] }))
    "alice" aliceKey
    0xcc316d0784b8f9083d63ae2e9f884f2176cb8198ff5273a3f6c90ccc9b8920a64cf33370158ab5a2e93274c15edd81b349322925f963519a2556758dd5ecac03,
  exampleEntry 3 (hex 32 0xc47b2a3f2a80805305a292ab19d9e66ffcb162fef41acb872bf4cead6796cffb)
    (.direct (.createEnvironment { environmentId := lit "prod", dekCommitmentHex := List.replicate 64 49 }))
    "alice" aliceKey
    0x26f4e5a78b8f85b2dca770d9b349efc638f24d5a11c749a283e8e1ffb8fa0f4cfa3641169bc1e203f8546a5c6a98209fe703e0b071aeb21dd7f1b53100e5d002,
  exampleEntry 4 (hex 32 0x12ccbc4cc01d0cb6edb5a552e79325a04de4c28f8d04a134aaab934434f62667)
    (.direct (.setApprovalPolicy { ops := [.grantServer], requiredApprovals := 2 }))
    "alice" aliceKey
    0x77e2e7b83fabce5b78793a8365a5c48fe6abc9000e7c03e754559a86220d0313aba8d907432bac0f5214c64bf19fcd5cabe2d4c63326ce987c3fe1381af6c008,
  exampleEntry 5 (hex 32 0x7bcee2f0652c34f43b1129f10696bc164b061e036cab0e7e3320d5603c0e41ed)
    (.propose { inner := .grantServer exampleGrant, expiresAtMs := 9000 })
    "alice" aliceKey
    0x9978ebc2f07f57002d705ca57062855381ef76ed6213852be903420f9d268f0cb4a877e4c731574b447160e0cb679eb3c54d447d80f2c9df59d424d83d880408,
  exampleEntry 6 (hex 32 0x58e43bd76a7f487eb7c9c0cd78632456a4e096370fd6db9fa1a0faf33ee25514)
    (.approve (hex 32 0x58e43bd76a7f487eb7c9c0cd78632456a4e096370fd6db9fa1a0faf33ee25514))
    "bob" bobKey
    0xa0c6f0b084646cce8cfbdb36158ba29bbe58dd56f75697bde04cb6c22748e20d9bc0140ace911d5beeddc3dbb1521bf399a896b00b13882d1bd76ff8bbce3509,
  exampleEntry 7 (hex 32 0x9d913725a2c2a6e316a4829035cc67d45466b66623352d742f3971cd9548b19b)
    (.direct (.addDevice {
      encPubHex := laptopKey.enc, sigPubHex := laptopKey.sig
      roleCap := .member, scopeKind := .listed, scopeEnvironmentIds := [lit "prod"] }))
    "alice" aliceKey
    0x0db66ee41b9e117af64a3c05fe2bcaf1addc70aea7fb4bce71ffc976d54856e326eac5d4d2533d033ee10ddfb1495bc8b506f17f1d7b93af9a871708faac5f05,
  exampleEntry 8 (hex 32 0xe8d430fa32e17c73f363809b97b43fab49d608f2076d7dd0d17fbb31664c3cd3)
    (.direct (.rotateEpoch {
      environmentId := lit "prod", newEpoch := 2, reason := lit "rotation", dekCommitmentHex := List.replicate 64 50 }))
    "alice" laptopKey
    0xa395878763ec36a1509bd8d9dbcc04ec9f5a0ddca7895c79218a21848f507cc557258b26e0d2e44a1c79c6df9788512700c6e4b7828ef73b794bc6d8da4b3408]

/-- One owner, who adds a reader device and revokes the device that added it. -/
def demotedEntries : List ChainEntry :=
  [exampleGenesis,
  exampleEntry 2 (hex 32 0xf43bf288c234843f9b15a0bc507c1d93ac4255d10f2e7d7cfb3c6210e901e4b1)
    (.direct (.addDevice {
      encPubHex := laptopKey.enc, sigPubHex := laptopKey.sig
      roleCap := .reader, scopeKind := .all, scopeEnvironmentIds := [] }))
    "alice" aliceKey
    0x3e2046d74a04788ec5a3548f09d042e87e6f151abb080cea6a517ec46893ee35d6cda0d10ddb50fe7c5f8bee4a66583a1cce2bdd4e1e7ad9da870770457fbf03,
  exampleEntry 3 (hex 32 0xfb1dac06236171202186ad1966eb53012b22955cf45d05fc6e51963b3ad80cf3)
    (.direct (.revokeDevice { targetUserId := lit "alice", deviceFingerprintsHex := [aliceKey.fingerprint] }))
    "alice" aliceKey
    0x06f10fcbb5634663767aa892278b0188650efa6a87207711289a28b64315dbde24ccb6a0eb30cac50e83ebbe1cc968e69ada67375e4ab2a46ffd31f063025000]

/-- SHA-256, and an Ed25519 under which exactly the signatures of `entries` are valid. -/
def signedBy (keys : List ExampleKey) (entries : List ChainEntry) : Crypto where
  sha256 := Sha256.sha256
  ed25519Verify publicKey signedBytes signature :=
    entries.any fun entry =>
      decodeHex entry.signatureHex = some signature && canonicalChainSignedBytes entry = some signedBytes &&
        keys.any fun key => key.fingerprint = entry.actor.keyFingerprintHex && decodeHex key.sig = some publicKey

/-- The signatures of these entries under these keys, compared as texts: nothing is decoded. -/
def verifiesHex (keys : List ExampleKey) (entries : List ChainEntry) (publicKey signedBytes signature : Bytes) : Bool :=
  entries.any fun entry =>
    entry.signatureHex = encodeHex signature && canonicalChainSignedBytes entry = some signedBytes &&
      keys.any fun key => key.fingerprint = entry.actor.keyFingerprintHex && key.sig = encodeHex publicKey

theorem signedBy_eq_lookup (keys : List ExampleKey) (entries : List ChainEntry) (table : List Sha256.Known) :
    signedBy keys entries = ⟨Sha256.lookup table, verifiesHex keys entries⟩ := by
  unfold signedBy verifiesHex
  simp only [decodeHex_eq_some_iff, ← Sha256.sha256_eq_lookup]

theorem signedBy_eq (keys : List ExampleKey) (entries : List ChainEntry) :
    signedBy keys entries = ⟨Sha256.digest, verifiesHex keys entries⟩ := by
  unfold signedBy verifiesHex
  simp only [decodeHex_eq_some_iff, Sha256.sha256_eq]

def exampleCrypto : Crypto := signedBy [aliceKey, laptopKey, bobKey] (exampleEntries ++ demotedEntries)

def exampleChain : List Json := exampleEntries.map entryJson

def demotedChain : List Json := demotedEntries.map entryJson

theorem exampleCrypto_eq (table : List Sha256.Known) : exampleCrypto =
    ⟨Sha256.lookup table, verifiesHex [aliceKey, laptopKey, bobKey] (exampleEntries ++ demotedEntries)⟩ :=
  signedBy_eq_lookup _ _ table

def entryMessage (entry : ChainEntry) : Bytes := (canonicalChainEntryBytes entry).getD []

def keyMessage (key : ExampleKey) : Bytes := (decodeHex key.enc).getD [] ++ (decodeHex key.sig).getD []

set_option maxRecDepth 100000

def genesisDigest : Sha256.Known where
  message := entryMessage exampleGenesis
  hash := Sha256.bigEndian 0xf43bf288c234843f9b15a0bc507c1d93ac4255d10f2e7d7cfb3c6210e901e4b1 32
  digest_eq := by decide +kernel

def ownerDigest : Sha256.Known where
  message := entryMessage (exampleEntries.getD 1 exampleGenesis)
  hash := Sha256.bigEndian 0xc47b2a3f2a80805305a292ab19d9e66ffcb162fef41acb872bf4cead6796cffb 32
  digest_eq := by decide +kernel

def environmentDigest : Sha256.Known where
  message := entryMessage (exampleEntries.getD 2 exampleGenesis)
  hash := Sha256.bigEndian 0x12ccbc4cc01d0cb6edb5a552e79325a04de4c28f8d04a134aaab934434f62667 32
  digest_eq := by decide +kernel

def policyDigest : Sha256.Known where
  message := entryMessage (exampleEntries.getD 3 exampleGenesis)
  hash := Sha256.bigEndian 0x7bcee2f0652c34f43b1129f10696bc164b061e036cab0e7e3320d5603c0e41ed 32
  digest_eq := by decide +kernel

def proposalDigest : Sha256.Known where
  message := entryMessage (exampleEntries.getD 4 exampleGenesis)
  hash := Sha256.bigEndian 0x58e43bd76a7f487eb7c9c0cd78632456a4e096370fd6db9fa1a0faf33ee25514 32
  digest_eq := by decide +kernel

def approvalDigest : Sha256.Known where
  message := entryMessage (exampleEntries.getD 5 exampleGenesis)
  hash := Sha256.bigEndian 0x9d913725a2c2a6e316a4829035cc67d45466b66623352d742f3971cd9548b19b 32
  digest_eq := by decide +kernel

def deviceDigest : Sha256.Known where
  message := entryMessage (exampleEntries.getD 6 exampleGenesis)
  hash := Sha256.bigEndian 0xe8d430fa32e17c73f363809b97b43fab49d608f2076d7dd0d17fbb31664c3cd3 32
  digest_eq := by decide +kernel

def rotationDigest : Sha256.Known where
  message := entryMessage (exampleEntries.getD 7 exampleGenesis)
  hash := Sha256.bigEndian 0x93774f7cde2d9ccce05b76f145a8960ec3eb912ca3ea07cad0139f2b5606eed2 32
  digest_eq := by decide +kernel

def aliceDigest : Sha256.Known where
  message := keyMessage aliceKey
  hash := Sha256.bigEndian 0x0fc6d4364d001138f46bec3a22fb2ede3e3d9ff3de8d47243364f0658b86d2d3 32
  digest_eq := by decide +kernel

def laptopDigest : Sha256.Known where
  message := keyMessage laptopKey
  hash := Sha256.bigEndian 0x23eee2e402a0d144aeda1c8e020df5708ffd93c444e363ed591d24cd26a0829e 32
  digest_eq := by decide +kernel

def bobDigest : Sha256.Known where
  message := keyMessage bobKey
  hash := Sha256.bigEndian 0x6b661635ebe67eac75d983dac173b9b45ffb40945ee65178e4a3baa401190431 32
  digest_eq := by decide +kernel

/-- The digests that the example's evaluations meet. -/
def exampleDigests : List Sha256.Known :=
  [aliceDigest, laptopDigest, bobDigest, genesisDigest, ownerDigest, environmentDigest, policyDigest, proposalDigest,
    approvalDigest, deviceDigest, rotationDigest]

/-- One turn of the loop over an entry whose reading is known. -/
def verifyRead (crypto : Crypto) (loop : LoopState) (entry : ChainEntry) : Except VerifyFailure LoopState :=
  let seq := loop.seq + 1
  match (match checkFraming (entryJson entry) seq loop.prevHash with
      | some reason => .error reason
      | none =>
        match resolveActorSigPub crypto entry loop.state with
        | .error reason => .error reason
        | .ok sigPubHex =>
          if verifyEntrySignature crypto entry sigPubHex then .ok entry else .error .badSignature :
      Except ChainInvalidReason ChainEntry) with
  | .error reason => .error (.chainInvalid seq reason)
  | .ok entry =>
    match computeChainEntryHash crypto entry with
    | none => .error .thrown
    | some entryHashHex =>
      match evaluateEntry crypto entry entryHashHex loop.state with
      | .error reason => .error (.chainInvalid seq reason)
      | .ok (state, evaluated) =>
        .ok {
          state := state
          history := loop.history.map fun history =>
            (match evaluated with
              | none => history
              | some applied => recordHistory history applied seq state).recordEntryHash entryHashHex
          prevHash := entryHashHex
          seq := seq }

theorem verifyEntry_read (crypto : Crypto) (loop : LoopState) {entry : ChainEntry}
    (h : checkPayloadShape (entryJson entry) = some entry) :
    verifyEntry crypto loop (entryJson entry) = verifyRead crypto loop entry := by
  unfold verifyEntry verifyRead checkEntryBeforeApply
  rw [h]
  rfl

theorem foldlM_read (crypto : Crypto) {entries : List ChainEntry}
    (h : ∀ entry ∈ entries, checkPayloadShape (entryJson entry) = some entry) (loop : LoopState) :
    (entries.map entryJson).foldlM (verifyEntry crypto) loop = entries.foldlM (verifyRead crypto) loop := by
  induction entries generalizing loop with
  | nil => rfl
  | cons entry rest ih =>
    rw [List.map_cons, List.foldlM_cons, List.foldlM_cons, verifyEntry_read crypto loop (h entry List.mem_cons_self)]
    exact congrArg _ (funext fun loop => ih (fun e he => h e (List.mem_cons_of_mem _ he)) loop)

theorem exampleEntries_read : ∀ entry ∈ exampleEntries, checkPayloadShape (entryJson entry) = some entry := by
  decide +kernel

theorem exampleEntries_run :
    (exampleEntries.foldlM (verifyRead exampleCrypto) (.initial (some .new))).toBool = true := by
  rw [exampleCrypto_eq exampleDigests]
  decide +kernel

theorem exampleChain_accepted :
    ∃ st index, verifyChainWithHistory exampleCrypto exampleChain = .ok (st, index) := by
  have h := exampleEntries_run
  rw [← foldlM_read exampleCrypto exampleEntries_read] at h
  cases hrun : (exampleEntries.map entryJson).foldlM (verifyEntry exampleCrypto) (.initial (some .new)) with
  | error failure => rw [hrun] at h; cases h
  | ok loop =>
    unfold verifyChainWithHistory verifyChainCore exampleChain
    rw [hrun]
    exact ⟨_, _, rfl⟩

theorem exampleChain_verified : ∃ st, verifyChain exampleCrypto exampleChain = .ok st := by
  obtain ⟨st, index, h⟩ := exampleChain_accepted
  exact ⟨st, verifyChain_of_withHistory h⟩

end Maruhi.Chain
