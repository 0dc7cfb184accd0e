import Maruhi.Chain.Renaming

/-!
# Accepted lists under other names

A renaming that the encoder does not see changes no signed byte and no hash: an accepted list is accepted
under it too, and ends on the same head hash.
-/

open Text Utf8 OrderedMap

namespace Maruhi.Chain

section Equivariance
variable (f : JsString ↪ JsString) (crypto : Crypto)

/-! ## Entries -/

/-- What an entry comes to, under other names. -/
def renameResult (result : MutableChainState × Option AppliedOperation) :
    MutableChainState × Option AppliedOperation :=
  (result.1.rename f, result.2.map (AppliedOperation.rename f))

theorem evaluateDirect_rename (operation : ProposableOperation) (actor : ActorContext) (state : MutableChainState)
    (seq : Nat) :
    evaluateDirect crypto (operation.mapTexts f) (actor.rename f) (state.rename f) seq =
      (evaluateDirect crypto operation actor state seq).map (renameResult f) := by
  have hpolicy : (state.rename f).approvalPolicy = state.approvalPolicy := rfl
  have happly := applyOperation_rename f crypto operation state seq actor.userId
  simp only [evaluateDirect, roleReason_rename, hpolicy, isApprovalTarget_rename, consensusReason_rename]
  cases roleReason operation actor with
  | some reason => rfl
  | none =>
    dsimp only
    split_ifs
    · rfl
    · cases consensusReason crypto operation actor state with
      | some reason => rfl
      | none => exact congrArg (fun s => Except.ok (s, _)) happly

theorem evaluatePropose_rename (seq : Nat) (p : ProposePayload) (hash : JsString) (actor : ActorContext)
    (state : MutableChainState) :
    evaluatePropose crypto seq { p with inner := p.inner.mapTexts f } hash (actor.rename f) (state.rename f) =
      (evaluatePropose crypto seq p hash actor state).map (MutableChainState.rename f) := by
  have hpolicy : (state.rename f).approvalPolicy = state.approvalPolicy := rfl
  simp only [evaluatePropose, roleReason_rename, hpolicy, isApprovalTarget_rename, consensusReason_rename]
  cases roleReason p.inner actor with
  | some reason => rfl
  | none =>
    dsimp only
    split_ifs
    · rfl
    · cases consensusReason crypto p.inner actor state with
      | some reason => rfl
      | none => simp [Except.map, MutableChainState.rename, mapValues_set, PendingProposal.rename, ActorContext.rename,
          ChainDevice.rename, EffectivePermission.rename]

theorem voteDevice_rename (state : MutableChainState) (vote : ApprovalVote) :
    voteDevice (state.rename f) (vote.rename f) = (voteDevice state vote).map (ChainDevice.rename f) := by
  have h := deviceOf_rename f state.members vote.userId vote.keyFingerprintHex
  simp only [voteDevice, MutableChainState.rename, ApprovalVote.rename, h, Option.map_map]
  rfl

theorem approveVoteReason_rename (time : Nat) (actor : ActorContext) (pending : PendingProposal)
    (state : MutableChainState) :
    approveVoteReason time (actor.rename f) (pending.rename f) (state.rename f) =
      approveVoteReason time actor pending state := by
  have hany : ((approvalSignersOf (pending.rename f)).any fun signer =>
      signer.userId = (actor.rename f).userId && (voteDevice (state.rename f) signer).isSome) =
      (approvalSignersOf pending).any fun signer =>
        signer.userId = actor.userId && (voteDevice state signer).isSome := by
    rw [approvalSignersOf_rename, List.any_map]
    congr 1
    funext signer
    rw [Function.comp_apply, voteDevice_rename, Option.isSome_map]
    simp only [ApprovalVote.rename, ActorContext.rename, EmbeddingLike.apply_eq_iff_eq]
  have htarget := isApprovalTarget_rename f pending.inner state.approvalPolicy
  unfold approveVoteReason
  rw [hany]
  simp only [PendingProposal.rename, MutableChainState.rename, htarget]
  rfl

theorem completeProposal_rename (pending : PendingProposal) (state : MutableChainState) (seq : Nat) :
    completeProposal crypto (pending.rename f) (state.rename f) seq =
      (completeProposal crypto pending state seq).map (renameResult f) := by
  have hdevice : deviceOf (state.rename f).members (f pending.proposerUserId) pending.proposerKeyFingerprintHex =
      (deviceOf state.members pending.proposerUserId pending.proposerKeyFingerprintHex).map
        (Prod.map (ChainMember.rename f) (ChainDevice.rename f)) := deviceOf_rename f _ _ _
  unfold completeProposal
  simp only [PendingProposal.rename, hdevice]
  cases deviceOf state.members pending.proposerUserId pending.proposerKeyFingerprintHex with
  | none => rfl
  | some found =>
    obtain ⟨proposer, device⟩ := found
    simp only [Option.map_some, Prod.map, actorContextOf_rename, roleReason_rename, consensusReason_rename]
    cases roleReason pending.inner (actorContextOf proposer device) with
    | some reason => rfl
    | none =>
      dsimp only
      cases consensusReason crypto pending.inner (actorContextOf proposer device) state with
      | some reason => rfl
      | none =>
        have happly := applyOperation_rename f crypto pending.inner state seq proposer.userId
        simp only [ChainMember.rename, happly]
        simp [Except.map, renameResult, MutableChainState.rename, mapValues_delete, AppliedOperation.rename]

theorem evaluateApprove_rename (seq time : Nat) (proposal : JsString) (actor : ActorContext)
    (state : MutableChainState) :
    evaluateApprove crypto seq time proposal (actor.rename f) (state.rename f) =
      (evaluateApprove crypto seq time proposal actor state).map (renameResult f) := by
  have hget : (state.rename f).pendingProposals.get? proposal =
      (state.pendingProposals.get? proposal).map (PendingProposal.rename f) := get?_mapValues _ _ _
  have hrole : (actor.rename f).permission.role = actor.permission.role := rfl
  have hpolicy : (state.rename f).approvalPolicy = state.approvalPolicy := rfl
  unfold evaluateApprove
  rw [hget, hrole]
  split_ifs
  · rfl
  · cases state.pendingProposals.get? proposal with
    | none => rfl
    | some pending =>
      have hvotes : approvalSignersOf (pending.rename f) ++ [voteOf (actor.rename f)] =
          (approvalSignersOf pending ++ [voteOf actor]).map (ApprovalVote.rename f) := by
        rw [approvalSignersOf_rename, List.map_append]
        rfl
      simp only [Option.map_some, approveVoteReason_rename, hvotes, countOwnerVotes_rename, hpolicy]
      cases approveVoteReason time actor pending state with
      | some reason => rfl
      | none =>
        dsimp only
        split_ifs
        · simp [Except.map, renameResult, MutableChainState.rename, mapValues_set, PendingProposal.rename,
            List.map_append, voteOf, ApprovalVote.rename, ActorContext.rename, ChainDevice.rename]
        · exact completeProposal_rename f crypto pending state seq

theorem evaluateWithdraw_rename (proposal : JsString) (actor : ActorContext) (state : MutableChainState) :
    evaluateWithdraw proposal (actor.rename f) (state.rename f) =
      (evaluateWithdraw proposal actor state).map (MutableChainState.rename f) := by
  have hget : (state.rename f).pendingProposals.get? proposal =
      (state.pendingProposals.get? proposal).map (PendingProposal.rename f) := get?_mapValues _ _ _
  have hrole : (actor.rename f).permission.role = actor.permission.role := rfl
  have hown : ((state.pendingProposals.get? proposal).map (PendingProposal.rename f)).map (·.proposerUserId) =
      some (actor.rename f).userId ↔
      (state.pendingProposals.get? proposal).map (·.proposerUserId) = some actor.userId := by
    cases state.pendingProposals.get? proposal <;> simp [PendingProposal.rename, ActorContext.rename]
  unfold evaluateWithdraw
  simp only [hget, hrole, ne_eq, hown]
  split_ifs
  · rfl
  · cases state.pendingProposals.get? proposal with
    | none => rfl
    | some pending => simp [Except.map, MutableChainState.rename, mapValues_delete, PendingProposal.rename]

/-- What the signing device of an entry comes to, if the state has it. -/
def forActor {β : Type} (state : MutableChainState) (userId : UserId) (fp : KeyFingerprintHex)
    (evaluate : ActorContext → Except ChainInvalidReason β) : Except ChainInvalidReason β :=
  match state.members.get? userId with
  | none => .error .actorNotMember
  | some member =>
    match member.devices.get? fp with
    | none => .error .actorKeyMismatch
    | some device => evaluate (actorContextOf member device)

theorem forActor_rename {β : Type} {g : β → β} (evaluate evaluate' : ActorContext → Except ChainInvalidReason β)
    (h : ∀ actor, evaluate' (actor.rename f) = (evaluate actor).map g) (state : MutableChainState) (userId : UserId)
    (fp : KeyFingerprintHex) :
    forActor (state.rename f) (f userId) fp evaluate' = (forActor state userId fp evaluate).map g := by
  unfold forActor
  rw [get?_members_rename]
  cases state.members.get? userId with
  | none => rfl
  | some member =>
    simp only [Option.map_some, ChainMember.rename, get?_mapValues]
    cases member.devices.get? fp with
    | none => rfl
    | some device => exact (congrArg evaluate' (actorContextOf_rename f member device)).trans (h _)

theorem evaluateEntry_rename (entry : ChainEntry) (hash : JsString) (state : MutableChainState) :
    evaluateEntry crypto (entry.mapTexts f) hash (state.rename f) =
      (evaluateEntry crypto entry hash state).map (renameResult f) := by
  obtain ⟨suite, seq, prev, operation, ⟨userId, fp⟩, time, sig⟩ := entry
  cases operation with
  | direct operation =>
    cases operation with
    | genesis p => exact congrArg (fun s => Except.ok (s, _)) (applyGenesis_rename f p ⟨userId, fp⟩ seq state)
    | _ =>
      exact forActor_rename f (fun actor => evaluateDirect crypto _ actor state seq)
        (fun actor => evaluateDirect crypto (ProposableOperation.mapTexts f _) actor (state.rename f) seq)
        (fun actor => evaluateDirect_rename f crypto _ actor state seq) state userId fp
  | propose p =>
    refine forActor_rename f (fun actor => (evaluatePropose crypto seq p hash actor state).map (·, none))
      (fun actor => (evaluatePropose crypto seq { p with inner := p.inner.mapTexts f } hash actor (state.rename f)).map
        (·, none)) (fun actor => ?_) state userId fp
    rw [evaluatePropose_rename]
    cases evaluatePropose crypto seq p hash actor state <;> rfl
  | approve proposal =>
    exact forActor_rename f (fun actor => evaluateApprove crypto seq time proposal actor state)
      (fun actor => evaluateApprove crypto seq time proposal actor (state.rename f))
      (fun actor => evaluateApprove_rename f crypto seq time proposal actor state) state userId fp
  | withdraw proposal =>
    refine forActor_rename f (fun actor => (evaluateWithdraw proposal actor state).map (·, none))
      (fun actor => (evaluateWithdraw proposal actor (state.rename f)).map (·, none)) (fun actor => ?_) state userId fp
    rw [evaluateWithdraw_rename]
    cases evaluateWithdraw proposal actor state <;> rfl

theorem resolveActorSigPub_rename (entry : ChainEntry) (state : MutableChainState) :
    resolveActorSigPub crypto (entry.mapTexts f) (state.rename f) = resolveActorSigPub crypto entry state := by
  obtain ⟨suite, seq, prev, operation, ⟨userId, fp⟩, time, sig⟩ := entry
  have hkey : forActor (state.rename f) (f userId) fp (fun actor => .ok actor.device.sigPubHex) =
      forActor state userId fp (fun actor => .ok actor.device.sigPubHex) := by
    rw [forActor_rename f (g := id) (fun actor => .ok actor.device.sigPubHex) _ fun _ => rfl, Except.map_id]
    rfl
  cases operation with
  | direct operation =>
    cases operation with
    | genesis p => rfl
    | _ => exact hkey
  | _ => exact hkey

/-! ## The bytes -/

theorem encodeLengthPrefixed_congr {fields fields' : List LengthPrefixedField}
    (h : fields.map fieldOk = fields'.map fieldOk) : encodeLengthPrefixed fields = encodeLengthPrefixed fields' := by
  have hmap : ∀ fields : List LengthPrefixedField, fields.mapM fieldOk = (fields.map fieldOk).mapM id := by
    intro fields
    rw [List.mapM_map]
    rfl
  rw [encodeLengthPrefixed, encodeLengthPrefixed, hmap, hmap, h]

theorem fieldOk_str_congr {s t : JsString} (h : utf8Encode s = utf8Encode t) :
    fieldOk (.str s) = fieldOk (.str t) := by
  simp only [fieldOk, fieldBody, h]

theorem encodeStrings_congr {strings strings' : List JsString}
    (h : strings.map utf8Encode = strings'.map utf8Encode) : encodeStrings strings = encodeStrings strings' := by
  have hfield : fieldOk ∘ LengthPrefixedField.str =
      (fun body => if body.length > 0xffffffff then none else some body) ∘ utf8Encode := by
    funext s
    simp [fieldOk, fieldBody]
  apply encodeLengthPrefixed_congr
  rw [List.map_map, List.map_map, hfield, ← List.map_map, h, List.map_map]

section Bytes
variable {f} (hf : ∀ s, utf8Encode (f s) = utf8Encode s)
include hf

theorem encodeStrings_map (ids : List JsString) : encodeStrings (ids.map f) = encodeStrings ids :=
  encodeStrings_congr (by simp [Function.comp_def, hf])

theorem canonicalLeasePolicyBytes_mapTexts (policy : List LeasePolicyIssuer) :
    canonicalLeasePolicyBytes (policy.map (·.mapTexts f)) = canonicalLeasePolicyBytes policy := by
  have hconstraint : ∀ c : LeaseClaimConstraint, encodeStrings [f c.claimName, f c.claimValue] =
      encodeStrings [c.claimName, c.claimValue] := fun c => encodeStrings_congr (by simp [hf])
  have hissuer : ∀ (issuer : LeasePolicyIssuer) list,
      encodeLengthPrefixed [.str (f issuer.issuerUrl), .str (f issuer.audience), .bytes list] =
      encodeLengthPrefixed [.str issuer.issuerUrl, .str issuer.audience, .bytes list] :=
    fun issuer list => encodeLengthPrefixed_congr (by simp [fieldOk_str_congr (hf _)])
  simp only [canonicalLeasePolicyBytes, List.mapM_map, LeasePolicyIssuer.mapTexts, LeaseClaimConstraint.mapTexts,
    Function.comp_def, hconstraint, hissuer]

theorem canonicalCheckpointEnvironmentsBytes_mapTexts (tuples : List CheckpointEnvironmentEntry) :
    canonicalCheckpointEnvironmentsBytes (tuples.map (·.mapTexts f)) =
      canonicalCheckpointEnvironmentsBytes tuples := by
  have htuple : ∀ entry : CheckpointEnvironmentEntry,
      encodeLengthPrefixed [.str (f entry.environmentId), .num entry.epoch, .num entry.manifestVersion,
        .str entry.manifestSigHashHex, .str entry.valuesDigestHex] =
      encodeLengthPrefixed [.str entry.environmentId, .num entry.epoch, .num entry.manifestVersion,
        .str entry.manifestSigHashHex, .str entry.valuesDigestHex] :=
    fun entry => encodeLengthPrefixed_congr (by simp [fieldOk_str_congr (hf _)])
  simp only [canonicalCheckpointEnvironmentsBytes, List.mapM_map, CheckpointEnvironmentEntry.mapTexts,
    Function.comp_def, htuple]

theorem canonicalProposablePayloadBytes_mapTexts (operation : ProposableOperation) :
    canonicalProposablePayloadBytes (operation.mapTexts f) = canonicalProposablePayloadBytes operation := by
  have hhead : ∀ (s : JsString) rest, encodeStrings (f s :: rest) = encodeStrings (s :: rest) :=
    fun s rest => encodeStrings_congr (by simp [hf])
  cases operation with
  | rotateEpoch p =>
    exact encodeLengthPrefixed_congr (by simp [fieldOk_str_congr (hf _)])
  | _ =>
    simp only [ProposableOperation.mapTexts, canonicalProposablePayloadBytes, canonicalScopeEnvironmentsHex,
      encodeStrings_map hf, canonicalLeasePolicyBytes_mapTexts hf, canonicalCheckpointEnvironmentsBytes_mapTexts hf,
      hhead]

theorem canonicalChainPayloadBytes_mapTexts (operation : ChainOperation) :
    canonicalChainPayloadBytes (operation.mapTexts f) = canonicalChainPayloadBytes operation := by
  cases operation with
  | direct operation => exact canonicalProposablePayloadBytes_mapTexts hf operation
  | propose p =>
    have hname : proposableOpName (p.inner.mapTexts f) = proposableOpName p.inner := by cases p.inner <;> rfl
    simp only [ChainOperation.mapTexts, canonicalChainPayloadBytes, canonicalProposablePayloadBytes_mapTexts hf, hname]
  | _ => rfl

omit hf in
theorem opName_mapTexts (operation : ChainOperation) : opName (operation.mapTexts f) = opName operation := by
  cases operation with
  | direct operation => cases operation <;> rfl
  | _ => rfl

theorem canonicalChainSignedBytes_mapTexts (entry : ChainEntry) :
    canonicalChainSignedBytes (entry.mapTexts f) = canonicalChainSignedBytes entry := by
  have hfields : ∀ payload, encodeLengthPrefixed (signedFields (entry.mapTexts f) payload) =
      encodeLengthPrefixed (signedFields entry payload) := fun payload => encodeLengthPrefixed_congr (by
    simp [signedFields, ChainEntry.mapTexts, ChainActor.mapTexts, opName_mapTexts, fieldOk_str_congr (hf _)])
  have hpayload := canonicalChainPayloadBytes_mapTexts hf entry.operation
  unfold canonicalChainSignedBytes
  simp only [hfields]
  exact congrArg (· >>= _) hpayload

theorem canonicalChainEntryBytes_mapTexts (entry : ChainEntry) :
    canonicalChainEntryBytes (entry.mapTexts f) = canonicalChainEntryBytes entry := by
  have hfields : ∀ payload,
      encodeLengthPrefixed (signedFields (entry.mapTexts f) payload ++ [.str entry.signatureHex]) =
        encodeLengthPrefixed (signedFields entry payload ++ [.str entry.signatureHex]) :=
    fun payload => encodeLengthPrefixed_congr (by
      simp [signedFields, ChainEntry.mapTexts, ChainActor.mapTexts, opName_mapTexts, fieldOk_str_congr (hf _)])
  have hpayload := canonicalChainPayloadBytes_mapTexts hf entry.operation
  have hsig : (entry.mapTexts f).signatureHex = entry.signatureHex := rfl
  unfold canonicalChainEntryBytes
  simp only [hsig, hfields]
  exact congrArg (· >>= _) hpayload

/-! ## The shape -/

theorem isBoundedString_rename (s : JsString) : isBoundedString (f s) = isBoundedString s := by
  simp only [isBoundedString, withinFieldBytes, hf, length_eq_of_utf8Encode (hf s)]

theorem withinFieldBytes_rename (s : JsString) : withinFieldBytes (f s) = withinFieldBytes s := by
  simp only [withinFieldBytes, hf, length_eq_of_utf8Encode (hf s)]

theorem IdsShaped.rename {ids : List EnvironmentId} (h : IdsShaped ids) : IdsShaped (ids.map f) where
  count := by rw [List.length_map]; exact h.count
  bounded := List.forall_mem_map.mpr fun id hid => (isBoundedString_rename hf id).trans (h.bounded id hid)

theorem ScopeShaped.rename {scope : ScopePayloadFields} (h : ScopeShaped scope) :
    ScopeShaped (scope.mapTexts f) where
  ids := h.ids.rename hf
  ok := by
    have hok := h.ok
    unfold scopeIdsOk at hok ⊢
    cases hkind : scope.scopeKind <;>
      simpa [ScopePayloadFields.mapTexts, hkind, List.nodup_map_iff f.injective] using hok

theorem IssuerShaped.rename {issuer : LeasePolicyIssuer} (h : IssuerShaped issuer) :
    IssuerShaped (issuer.mapTexts f) where
  url := (isBoundedString_rename hf _).trans h.url
  audience := (isBoundedString_rename hf _).trans h.audience
  count := by rw [LeasePolicyIssuer.mapTexts, List.length_map]; exact h.count
  constraints := List.forall_mem_map.mpr fun c hc =>
    ⟨(isBoundedString_rename hf _).trans (h.constraints c hc).name,
      (withinFieldBytes_rename hf _).trans (h.constraints c hc).value⟩

theorem TupleShaped.rename {tuple : CheckpointEnvironmentEntry} (h : TupleShaped tuple) :
    TupleShaped (tuple.mapTexts f) :=
  { h with id := (isBoundedString_rename hf _).trans h.id }

theorem PayloadShaped.rename {operation : ProposableOperation} (h : PayloadShaped operation) :
    PayloadShaped (operation.mapTexts f) := by
  have hid := isBoundedString_rename hf
  cases operation with
  | genesis p => exact h
  | addMember p => exact ⟨(hid _).trans h.1, h.2.1, h.2.2.rename hf⟩
  | removeMember p => exact (hid _).trans h
  | changeRole p => exact ⟨(hid _).trans h.1, h.2.rename hf⟩
  | createEnvironment p => exact ⟨(hid _).trans h.1, h.2⟩
  | deleteEnvironment p => exact (hid _).trans h
  | rotateEpoch p => exact ⟨(hid _).trans h.1, h.2.1, (withinFieldBytes_rename hf _).trans h.2.2.1, h.2.2.2⟩
  | grantServer p =>
    obtain ⟨henc, hfp, hids, hcount, hissuers⟩ := h
    exact ⟨henc, hfp, hids.rename hf, by rw [List.length_map]; exact hcount,
      List.forall_mem_map.mpr fun issuer hissuer => (hissuers issuer hissuer).rename hf⟩
  | revokeServer p => exact h
  | checkpoint p =>
    obtain ⟨htuples, hnodup, haudit⟩ := h
    refine ⟨List.forall_mem_map.mpr fun tuple htuple => (htuples tuple htuple).rename hf, ?_, haudit⟩
    have hids : (p.environments.map (·.mapTexts f)).map (·.environmentId) =
        (p.environments.map (·.environmentId)).map f := by
      simp [Function.comp_def, CheckpointEnvironmentEntry.mapTexts]
    rw [hids]
    exact hnodup.map f.injective
  | setApprovalPolicy p => exact h
  | addDevice p => exact ⟨h.1, h.2.rename hf⟩
  | revokeDevice p => exact ⟨(hid _).trans h.1, h.2⟩

theorem EntryShaped.rename {entry : ChainEntry} (h : EntryShaped entry) :
    EntryShaped (entry.mapTexts f) where
  timestamp := h.timestamp
  userId := (isBoundedString_rename hf _).trans h.userId
  fingerprint := h.fingerprint
  signature := h.signature
  operation := by
    have hop := h.operation
    unfold ChainEntry.mapTexts
    cases hentry : entry.operation with
    | direct operation => rw [hentry] at hop; exact PayloadShaped.rename hf hop
    | propose p => rw [hentry] at hop; exact ⟨PayloadShaped.rename hf hop.1, hop.2⟩
    | approve hash => rw [hentry] at hop; exact hop
    | withdraw hash => rw [hentry] at hop; exact hop

theorem verifyEntrySignature_mapTexts (entry : ChainEntry) (sigPubHex : JsString) :
    verifyEntrySignature crypto (entry.mapTexts f) sigPubHex = verifyEntrySignature crypto entry sigPubHex := by
  unfold verifyEntrySignature
  rw [canonicalChainSignedBytes_mapTexts hf]
  rfl

theorem computeChainEntryHash_mapTexts (entry : ChainEntry) :
    computeChainEntryHash crypto (entry.mapTexts f) = computeChainEntryHash crypto entry := by
  rw [computeChainEntryHash, canonicalChainEntryBytes_mapTexts hf, computeChainEntryHash]

end Bytes

/-! ## Lists -/

/-- The entry a value is read as, its texts through `f`. -/
def renameJson (j : Json) : Json :=
  match checkPayloadShape j with
  | some entry => entryJson (entry.mapTexts f)
  | none => j

def LoopState.rename (loop : LoopState) : LoopState :=
  { loop with state := loop.state.rename f, history := none }

section Runs
variable {f crypto}

theorem isGenesis_mapTexts (operation : ChainOperation) : isGenesis (operation.mapTexts f) = isGenesis operation := by
  cases operation with
  | direct operation => cases operation <;> rfl
  | _ => rfl

theorem Framed.rename {entry : ChainEntry} {seq : Nat} {prevHash : JsString} (h : Framed entry seq prevHash) :
    Framed (entry.mapTexts f) seq prevHash :=
  ⟨h.suite_eq, h.seq_eq, h.prevHash_eq,
    (iff_of_eq (congrArg (· = true) (isGenesis_mapTexts entry.operation))).trans h.genesis_iff⟩

variable (hf : ∀ s, utf8Encode (f s) = utf8Encode s)
include hf

theorem checkPayloadShape_renameJson (j : Json) :
    checkPayloadShape (renameJson f j) = (checkPayloadShape j).map (·.mapTexts f) := by
  unfold renameJson
  cases h : checkPayloadShape j with
  | none => exact h
  | some entry => exact checkPayloadShape_json _ ((checkPayloadShape_shaped h).rename hf)

theorem AcceptedStep.rename {loop loop' : LoopState} {j : Json} {entry : ChainEntry} {hash : JsString}
    {applied : Option AppliedOperation} (h : AcceptedStep crypto loop j loop' entry hash applied) :
    AcceptedStep crypto (loop.rename f) (renameJson f j) (loop'.rename f) (entry.mapTexts f) hash
      (applied.map (AppliedOperation.rename f)) := by
  have hshape : checkPayloadShape (renameJson f j) = some (entry.mapTexts f) := by
    rw [checkPayloadShape_renameJson hf, h.shape, Option.map_some]
  obtain ⟨sigPubHex, hresolve, hverify⟩ := h.signature
  refine ⟨checkFraming_of_framed hshape h.framed.rename, hshape, ⟨sigPubHex, ?_, ?_⟩, ?_, ?_, h.seq_eq,
    h.prevHash_eq, rfl⟩
  · exact (resolveActorSigPub_rename f crypto entry loop.state).trans hresolve
  · exact (verifyEntrySignature_mapTexts crypto hf entry sigPubHex).trans hverify
  · exact (computeChainEntryHash_mapTexts crypto hf entry).trans h.hash_eq
  · have hevaluated := evaluateEntry_rename f crypto entry hash loop.state
    rw [h.evaluated] at hevaluated
    exact hevaluated

theorem verifyEntry_rename {loop loop' : LoopState} {j : Json} (h : verifyEntry crypto loop j = .ok loop') :
    verifyEntry crypto (loop.rename f) (renameJson f j) = .ok (loop'.rename f) := by
  obtain ⟨entry, hash, applied, hacc⟩ := verifyEntry_ok h
  refine (hacc.rename hf).verifyEntry_eq ?_
  unfold renameJson
  rw [hacc.shape]
  rfl

/-- A list is accepted under other names that are encoded alike, with the same hashes. -/
theorem runs_rename {entries : List Json} {loop : LoopState} (h : Runs crypto none entries loop) :
    Runs crypto none (entries.map (renameJson f)) (loop.rename f) := by
  induction entries using List.reverseRecOn generalizing loop with
  | nil =>
    obtain rfl := (Run.reaches_nil _ _).mp h
    exact (Run.reaches_nil _ _).mpr rfl
  | append_singleton pre j ih =>
    obtain ⟨mid, hmid, hstep⟩ := (Run.reaches_snoc _ _ _ _).mp h
    rw [List.map_append]
    exact (Run.reaches_snoc _ _ _ _).mpr ⟨_, ih hmid, verifyEntry_rename hf hstep⟩

theorem verifyChain_rename {entries : List Json} {st : ChainState} (h : verifyChain crypto entries = .ok st) :
    ∃ st', verifyChain crypto (entries.map (renameJson f)) = .ok st' ∧ st'.headHashHex = st.headHashHex := by
  obtain ⟨hne, loop, hrun, rfl⟩ := verifyChain_ok_iff.mp h
  exact ⟨_, verifyChain_ok_iff.mpr ⟨by simpa using hne, _, runs_rename hf hrun, rfl⟩, rfl⟩

end Runs

end Equivariance

/-! ## A text that is not kept -/

/-- A renaming that the encoder does not see, of a text that it does not keep. -/
theorem exists_renaming {s : JsString} (h : replacementFree s = false) :
    ∃ f : JsString ↪ JsString, (∀ t, utf8Encode (f t) = utf8Encode t) ∧ f s ≠ s := by
  obtain ⟨s', hne, hencode⟩ := exists_utf8Encode_eq h
  refine ⟨(Equiv.swap s s').toEmbedding, fun t => ?_, ?_⟩
  · rw [Equiv.coe_toEmbedding, Equiv.swap_apply_def]
    split_ifs with hs hs'
    · rw [hencode, hs]
    · rw [hs', hencode]
    · rfl
  · rw [Equiv.coe_toEmbedding, Equiv.swap_apply_left]
    exact hne

end Maruhi.Chain
