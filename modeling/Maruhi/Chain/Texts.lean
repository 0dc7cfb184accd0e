import Maruhi.Chain.Wire

/-!
# The texts of an entry

The strings the payload check lets through as they come: ids, reasons and lease-policy texts. The
others are hex, names or numbers, and those are ASCII.
-/

open Text Utf8

namespace Maruhi.Chain

/-! ## Rewriting the texts -/

section MapTexts
variable (f : JsString → JsString)

def ScopePayloadFields.mapTexts (scope : ScopePayloadFields) : ScopePayloadFields :=
  { scope with scopeEnvironmentIds := scope.scopeEnvironmentIds.map f }

def LeaseClaimConstraint.mapTexts (constraint : LeaseClaimConstraint) : LeaseClaimConstraint where
  claimName := f constraint.claimName
  claimValue := f constraint.claimValue

def LeasePolicyIssuer.mapTexts (issuer : LeasePolicyIssuer) : LeasePolicyIssuer where
  issuerUrl := f issuer.issuerUrl
  audience := f issuer.audience
  claimConstraints := issuer.claimConstraints.map (·.mapTexts f)

def CheckpointEnvironmentEntry.mapTexts (tuple : CheckpointEnvironmentEntry) : CheckpointEnvironmentEntry :=
  { tuple with environmentId := f tuple.environmentId }

/-- Every text of the operation through `f`. -/
def ProposableOperation.mapTexts : ProposableOperation → ProposableOperation
  | .genesis p => .genesis p
  | .addMember p =>
    .addMember { p with targetUserId := f p.targetUserId, scopeEnvironmentIds := p.scopeEnvironmentIds.map f }
  | .removeMember p => .removeMember { targetUserId := f p.targetUserId }
  | .changeRole p =>
    .changeRole { p with targetUserId := f p.targetUserId, scopeEnvironmentIds := p.scopeEnvironmentIds.map f }
  | .createEnvironment p => .createEnvironment { p with environmentId := f p.environmentId }
  | .deleteEnvironment p => .deleteEnvironment { environmentId := f p.environmentId }
  | .rotateEpoch p => .rotateEpoch { p with environmentId := f p.environmentId, reason := f p.reason }
  | .grantServer p =>
    .grantServer { p with
      scopeEnvironmentIds := p.scopeEnvironmentIds.map f, leasePolicy := p.leasePolicy.map (·.mapTexts f) }
  | .revokeServer p => .revokeServer p
  | .checkpoint p => .checkpoint { p with environments := p.environments.map (·.mapTexts f) }
  | .setApprovalPolicy p => .setApprovalPolicy p
  | .addDevice p => .addDevice { p with scopeEnvironmentIds := p.scopeEnvironmentIds.map f }
  | .revokeDevice p => .revokeDevice { p with targetUserId := f p.targetUserId }

attribute [grind =] ProposableOperation.mapTexts

def ChainOperation.mapTexts : ChainOperation → ChainOperation
  | .direct operation => .direct (operation.mapTexts f)
  | .propose p => .propose { p with inner := p.inner.mapTexts f }
  | .approve proposalHashHex => .approve proposalHashHex
  | .withdraw proposalHashHex => .withdraw proposalHashHex

attribute [grind =] ChainOperation.mapTexts

def ChainActor.mapTexts (actor : ChainActor) : ChainActor := { actor with userId := f actor.userId }

def ChainEntry.mapTexts (entry : ChainEntry) : ChainEntry :=
  { entry with operation := entry.operation.mapTexts f, actor := entry.actor.mapTexts f }

end MapTexts

/-! ## The texts themselves -/

def LeasePolicyIssuer.texts (issuer : LeasePolicyIssuer) : List JsString :=
  [issuer.issuerUrl, issuer.audience] ++ issuer.claimConstraints.flatMap fun c => [c.claimName, c.claimValue]

/-- The texts of an operation that the derived state keeps or looks up: all but the reason of a rotation. -/
def ProposableOperation.stateTexts : ProposableOperation → List JsString
  | .genesis _ => []
  | .addMember p => p.targetUserId :: p.scopeEnvironmentIds
  | .removeMember p => [p.targetUserId]
  | .changeRole p => p.targetUserId :: p.scopeEnvironmentIds
  | .createEnvironment p => [p.environmentId]
  | .deleteEnvironment p => [p.environmentId]
  | .rotateEpoch p => [p.environmentId]
  | .grantServer p => p.scopeEnvironmentIds ++ p.leasePolicy.flatMap (·.texts)
  | .revokeServer _ => []
  | .checkpoint p => p.environments.map (·.environmentId)
  | .setApprovalPolicy _ => []
  | .addDevice p => p.scopeEnvironmentIds
  | .revokeDevice p => [p.targetUserId]

def ProposableOperation.reasons : ProposableOperation → List JsString
  | .rotateEpoch p => [p.reason]
  | _ => []

def ChainEntry.stateTexts (entry : ChainEntry) : List JsString :=
  entry.actor.userId :: (carried entry.operation).flatMap (·.stateTexts)

/-- Every text of the entry. -/
def ChainEntry.texts (entry : ChainEntry) : List JsString :=
  entry.stateTexts ++ (carried entry.operation).flatMap (·.reasons)

/-! ## The texts of what is rewritten -/

theorem ProposableOperation.stateTexts_mapTexts (f : JsString → JsString) (operation : ProposableOperation) :
    (operation.mapTexts f).stateTexts = operation.stateTexts.map f := by
  have hissuer : ∀ issuer : LeasePolicyIssuer, (issuer.mapTexts f).texts = issuer.texts.map f := fun issuer => by
    simp [LeasePolicyIssuer.mapTexts, LeasePolicyIssuer.texts, LeaseClaimConstraint.mapTexts, List.flatMap_map,
      List.map_flatMap]
  cases operation <;>
    simp [ProposableOperation.mapTexts, ProposableOperation.stateTexts, CheckpointEnvironmentEntry.mapTexts,
      List.flatMap_map, List.map_flatMap, hissuer]

theorem ChainEntry.stateTexts_mapTexts (f : JsString → JsString) (entry : ChainEntry) :
    (entry.mapTexts f).stateTexts = entry.stateTexts.map f := by
  obtain ⟨suite, seq, prev, operation, actor, time, sig⟩ := entry
  cases operation <;>
    simp [ChainEntry.stateTexts, ChainEntry.mapTexts, ChainActor.mapTexts, ChainOperation.mapTexts, carried,
      ProposableOperation.stateTexts_mapTexts]

/-! ## Maps that tell texts apart -/

theorem map_inj_on {α β : Type} {f : α → β} {l m : List α} (h : l.map f = m.map f)
    (hinj : ∀ a ∈ l, ∀ b ∈ m, f a = f b → a = b) : l = m := by
  induction l generalizing m with
  | nil => exact (List.map_eq_nil_iff.mp h.symm).symm
  | cons a rest ih =>
    cases m with
    | nil => cases h
    | cons b rest' =>
      simp only [List.map_cons, List.cons.injEq] at h
      rw [hinj a (by simp) b (by simp) h.1, ih h.2 fun x hx y hy => hinj x (by simp [hx]) y (by simp [hy])]

section MapTextsInj
variable {f : JsString → JsString}

theorem LeaseClaimConstraint.mapTexts_inj {c c' : LeaseClaimConstraint} (h : c.mapTexts f = c'.mapTexts f)
    (hinj : ∀ s ∈ [c.claimName, c.claimValue], ∀ t ∈ [c'.claimName, c'.claimValue], f s = f t → s = t) : c = c' := by
  obtain ⟨name, value⟩ := c
  obtain ⟨name', value'⟩ := c'
  simp only [LeaseClaimConstraint.mapTexts, LeaseClaimConstraint.mk.injEq] at h
  rw [hinj _ (by simp) _ (by simp) h.1, hinj _ (by simp) _ (by simp) h.2]

theorem LeasePolicyIssuer.mapTexts_inj {i i' : LeasePolicyIssuer} (h : i.mapTexts f = i'.mapTexts f)
    (hinj : ∀ s ∈ i.texts, ∀ t ∈ i'.texts, f s = f t → s = t) : i = i' := by
  obtain ⟨url, audience, constraints⟩ := i
  obtain ⟨url', audience', constraints'⟩ := i'
  simp only [LeasePolicyIssuer.mapTexts, LeasePolicyIssuer.mk.injEq] at h
  simp only [LeasePolicyIssuer.texts, List.mem_append, List.mem_cons, List.mem_flatMap] at hinj
  have hconstraints := map_inj_on h.2.2 fun c hc c' hc' heq => LeaseClaimConstraint.mapTexts_inj heq
    fun s hs t ht => hinj s (Or.inr ⟨c, hc, by simpa using hs⟩) t (Or.inr ⟨c', hc', by simpa using ht⟩)
  rw [hinj url (by simp) url' (by simp) h.1, hinj audience (by simp) audience' (by simp) h.2.1, hconstraints]

theorem ProposableOperation.mapTexts_inj {op op' : ProposableOperation} (h : op.mapTexts f = op'.mapTexts f)
    (hinj : ∀ s ∈ op.stateTexts ++ op.reasons, ∀ t ∈ op'.stateTexts ++ op'.reasons, f s = f t → s = t) :
    op = op' := by
  have hids : ∀ {ids ids' : List EnvironmentId}, ids.map f = ids'.map f →
      (∀ s ∈ ids, s ∈ op.stateTexts ++ op.reasons) → (∀ s ∈ ids', s ∈ op'.stateTexts ++ op'.reasons) → ids = ids' :=
    fun h hl hr => map_inj_on h fun s hs t ht => hinj s (hl s hs) t (hr t ht)
  cases op <;> cases op' <;> try cases h
  case addMember.addMember p p' =>
    obtain ⟨⟨kind, ids⟩, id, enc, sig, role⟩ := p
    obtain ⟨⟨kind', ids'⟩, id', enc', sig', role'⟩ := p'
    simp only [ProposableOperation.mapTexts, ProposableOperation.addMember.injEq, AddMemberPayload.mk.injEq,
      ScopePayloadFields.mk.injEq] at h
    obtain ⟨⟨rfl, hlist⟩, hid, rfl, rfl, rfl⟩ := h
    rw [hinj id (by simp [stateTexts]) id' (by simp [stateTexts]) hid,
      hids hlist (by simp +contextual [stateTexts]) (by simp +contextual [stateTexts])]
  case removeMember.removeMember p p' =>
    simp only [ProposableOperation.mapTexts, ProposableOperation.removeMember.injEq, RemoveMemberPayload.mk.injEq] at h
    obtain ⟨id⟩ := p
    rw [hinj id (by simp [stateTexts]) p'.targetUserId (by simp [stateTexts]) h]
  case changeRole.changeRole p p' =>
    obtain ⟨⟨kind, ids⟩, id, role⟩ := p
    obtain ⟨⟨kind', ids'⟩, id', role'⟩ := p'
    simp only [ProposableOperation.mapTexts, ProposableOperation.changeRole.injEq, ChangeRolePayload.mk.injEq,
      ScopePayloadFields.mk.injEq] at h
    obtain ⟨⟨rfl, hlist⟩, hid, rfl⟩ := h
    rw [hinj id (by simp [stateTexts]) id' (by simp [stateTexts]) hid,
      hids hlist (by simp +contextual [stateTexts]) (by simp +contextual [stateTexts])]
  case createEnvironment.createEnvironment p p' =>
    obtain ⟨id, dek⟩ := p
    obtain ⟨id', dek'⟩ := p'
    simp only [ProposableOperation.mapTexts, ProposableOperation.createEnvironment.injEq,
      CreateEnvironmentPayload.mk.injEq] at h
    obtain ⟨hid, rfl⟩ := h
    rw [hinj id (by simp [stateTexts]) id' (by simp [stateTexts]) hid]
  case deleteEnvironment.deleteEnvironment p p' =>
    simp only [ProposableOperation.mapTexts, ProposableOperation.deleteEnvironment.injEq,
      DeleteEnvironmentPayload.mk.injEq] at h
    obtain ⟨id⟩ := p
    rw [hinj id (by simp [stateTexts]) p'.environmentId (by simp [stateTexts]) h]
  case rotateEpoch.rotateEpoch p p' =>
    obtain ⟨id, epoch, reason, dek⟩ := p
    obtain ⟨id', epoch', reason', dek'⟩ := p'
    simp only [ProposableOperation.mapTexts, ProposableOperation.rotateEpoch.injEq, RotateEpochPayload.mk.injEq] at h
    obtain ⟨hid, rfl, hreason, rfl⟩ := h
    rw [hinj id (by simp [stateTexts]) id' (by simp [stateTexts]) hid,
      hinj reason (by simp [reasons]) reason' (by simp [reasons]) hreason]
  case grantServer.grantServer p p' =>
    obtain ⟨enc, fp, ids, policy⟩ := p
    obtain ⟨enc', fp', ids', policy'⟩ := p'
    simp only [ProposableOperation.mapTexts, ProposableOperation.grantServer.injEq, GrantServerPayload.mk.injEq] at h
    obtain ⟨rfl, rfl, hlist, hpolicy⟩ := h
    have hissuers := map_inj_on hpolicy fun i hi i' hi' heq => LeasePolicyIssuer.mapTexts_inj heq
      fun s hs t ht => hinj s (by simp only [stateTexts, List.mem_append, List.mem_flatMap]; exact Or.inl (Or.inr ⟨i, hi, hs⟩))
        t (by simp only [stateTexts, List.mem_append, List.mem_flatMap]; exact Or.inl (Or.inr ⟨i', hi', ht⟩))
    rw [hids hlist (by simp +contextual [stateTexts]) (by simp +contextual [stateTexts]), hissuers]
  case checkpoint.checkpoint p p' =>
    obtain ⟨tuples, audit⟩ := p
    obtain ⟨tuples', audit'⟩ := p'
    simp only [ProposableOperation.mapTexts, ProposableOperation.checkpoint.injEq, CheckpointPayload.mk.injEq] at h
    obtain ⟨hlist, rfl⟩ := h
    rw [map_inj_on hlist fun tuple htuple tuple' htuple' heq => ?_]
    obtain ⟨id, epoch, version, sig, digest⟩ := tuple
    obtain ⟨id', epoch', version', sig', digest'⟩ := tuple'
    simp only [CheckpointEnvironmentEntry.mapTexts, CheckpointEnvironmentEntry.mk.injEq] at heq
    obtain ⟨hid, rfl, rfl, rfl, rfl⟩ := heq
    have hmem : ∀ {tuples : List CheckpointEnvironmentEntry} {tuple : CheckpointEnvironmentEntry} {audit : JsString}, tuple ∈ tuples →
        tuple.environmentId ∈ stateTexts (.checkpoint ⟨tuples, audit⟩) ++ reasons (.checkpoint ⟨tuples, audit⟩) :=
      fun h => List.mem_append_left _ (List.mem_map_of_mem h)
    rw [hinj id (hmem htuple) id' (hmem htuple') hid]
  case addDevice.addDevice p p' =>
    obtain ⟨⟨kind, ids⟩, enc, sig, role⟩ := p
    obtain ⟨⟨kind', ids'⟩, enc', sig', role'⟩ := p'
    simp only [ProposableOperation.mapTexts, ProposableOperation.addDevice.injEq, AddDevicePayload.mk.injEq,
      ScopePayloadFields.mk.injEq] at h
    obtain ⟨⟨rfl, hlist⟩, rfl, rfl, rfl⟩ := h
    rw [hids hlist (by simp +contextual [stateTexts]) (by simp +contextual [stateTexts])]
  case revokeDevice.revokeDevice p p' =>
    obtain ⟨id, fps⟩ := p
    obtain ⟨id', fps'⟩ := p'
    simp only [ProposableOperation.mapTexts, ProposableOperation.revokeDevice.injEq, RevokeDevicePayload.mk.injEq] at h
    obtain ⟨hid, rfl⟩ := h
    rw [hinj id (by simp [stateTexts]) id' (by simp [stateTexts]) hid]
  all_goals rfl

theorem ChainOperation.mapTexts_inj {op op' : ChainOperation} (h : op.mapTexts f = op'.mapTexts f)
    (hinj : ∀ s ∈ (carried op).flatMap fun op => op.stateTexts ++ op.reasons,
      ∀ t ∈ (carried op').flatMap fun op => op.stateTexts ++ op.reasons, f s = f t → s = t) : op = op' := by
  cases op with
  | direct op =>
    cases op' with
    | direct op' =>
      simp only [ChainOperation.mapTexts, ChainOperation.direct.injEq] at h
      rw [ProposableOperation.mapTexts_inj h fun s hs t ht => hinj s (by simpa [carried] using hs) t
        (by simpa [carried] using ht)]
    | _ => cases h
  | propose p =>
    cases op' with
    | propose p' =>
      obtain ⟨op, expires⟩ := p
      obtain ⟨op', expires'⟩ := p'
      simp only [ChainOperation.mapTexts, ChainOperation.propose.injEq, ProposePayload.mk.injEq] at h
      obtain ⟨h, rfl⟩ := h
      rw [ProposableOperation.mapTexts_inj h fun s hs t ht => hinj s (by simpa [carried] using hs) t
        (by simpa [carried] using ht)]
    | _ => cases h
  | approve hash => cases op' <;> cases h; rfl
  | withdraw hash => cases op' <;> cases h; rfl

end MapTextsInj

end Maruhi.Chain
