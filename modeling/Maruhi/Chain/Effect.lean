import Maruhi.Chain.Step
import Maruhi.Chain.Permit

/-!
# The effect of an applied operation, one key at a time

Each component of the state after `applyOperation`, as a function of its value before. The
claims about members, environments, grants and checkpoints are read off these.
-/

namespace Maruhi.Chain

/-- Every map holds its values under their own keys, and a device's fingerprint is its keys'. -/
structure WellKeyed (crypto : Crypto) (s : MutableChainState) : Prop where
  member : ∀ u m, s.members.get? u = some m → m.userId = u
  device : ∀ u m fp d, s.members.get? u = some m → m.devices.get? fp = some d →
    d.keyFingerprintHex = fp ∧ userFingerprintHex crypto d.encPubHex d.sigPubHex = fp
  grant : ∀ fp g, s.serverGrants.get? fp = some g → g.serverKeyFingerprintHex = fp
  pending : ∀ h p, s.pendingProposals.get? h = some p → p.proposalHashHex = h

/-! ## Members -/

def newMember (crypto : Crypto) (p : AddMemberPayload) (seq : Nat) : ChainMember where
  userId := p.targetUserId
  role := p.role
  scope := memberScopeOf p.toScopePayloadFields
  devices := soleDevice
    (firstDeviceOf p.encPubHex p.sigPubHex (userFingerprintHex crypto p.encPubHex p.sigPubHex) seq)

def changedMember (p : ChangeRolePayload) (m : ChainMember) : ChainMember :=
  { m with role := p.newRole, scope := memberScopeOf p.toScopePayloadFields }

def memberWithDevice (device : ChainDevice) (m : ChainMember) : ChainMember :=
  { m with devices := m.devices.set device.keyFingerprintHex device }

def memberWithoutDevices (fps : List KeyFingerprintHex) (m : ChainMember) : ChainMember :=
  { m with devices := m.devices.without fps }

/-- The member `u` after the operation, from the member before. -/
def memberAfter (crypto : Crypto) (operation : ProposableOperation) (seq : Nat) (actorUserId u : UserId)
    (old : Option ChainMember) : Option ChainMember :=
  match operation with
  | .addMember p => if u = p.targetUserId then some (newMember crypto p seq) else old
  | .changeRole p => if u = p.targetUserId then old.map (changedMember p) else old
  | .removeMember p => if u = p.targetUserId then none else old
  | .deleteEnvironment p => old.map (pruneMember p.environmentId)
  | .addDevice p => if u = actorUserId then old.map (memberWithDevice (addedDevice crypto p seq)) else old
  | .revokeDevice p => if u = p.targetUserId then old.map (memberWithoutDevices p.deviceFingerprintsHex) else old
  | _ => old

attribute [grind =] memberAfter

theorem foldl_unindex (l : List ChainDevice) (s : MutableChainState) :
    l.foldl unindexDeviceKeys s =
      { s with
        memberEncPubs := s.memberEncPubs.without (l.map (·.encPubHex))
        memberSigPubs := s.memberSigPubs.without (l.map (·.sigPubHex)) } := by
  rw [← OrderedMap.foldl_delete, ← OrderedMap.foldl_delete, ← OrderedMap.foldl_delete_map,
    ← OrderedMap.foldl_delete_map]
  induction l generalizing s with
  | nil => rfl
  | cons d rest ih => rw [List.foldl_cons, ih]; rfl

theorem foldl_revokeOne (fps : List KeyFingerprintHex) (devices : OrderedMap KeyFingerprintHex ChainDevice)
    (s : MutableChainState) :
    ∃ removed : List ChainDevice, (∀ d, d ∈ removed ↔ ∃ fp ∈ fps, devices.get? fp = some d) ∧
      fps.foldl revokeOne (devices, s) = (devices.without fps, removed.foldl unindexDeviceKeys s) := by
  induction fps generalizing devices s with
  | nil => exact ⟨[], by simp, by rw [← OrderedMap.foldl_delete]; rfl⟩
  | cons fp rest ih =>
    cases hd : devices.get? fp with
    | none =>
      obtain ⟨removed, hmem, hfold⟩ := ih devices s
      refine ⟨removed, ?_, ?_⟩
      · intro d; rw [hmem]; simp [hd]
      · rw [List.foldl_cons, revokeOne, hd, hfold, ← OrderedMap.delete_without,
          OrderedMap.delete_of_get?_none hd]
    | some device =>
      obtain ⟨removed, hmem, hfold⟩ := ih (devices.delete fp) (unindexDeviceKeys s device)
      refine ⟨device :: removed, ?_, ?_⟩
      · intro d
        simp only [List.mem_cons, hmem, OrderedMap.get?_delete]
        constructor
        · rintro (rfl | ⟨fp', hfp', hget⟩)
          · exact ⟨fp, Or.inl rfl, hd⟩
          · split_ifs at hget with heq
            exact ⟨fp', Or.inr hfp', hget⟩
        · rintro ⟨fp', rfl | hfp', hget⟩
          · rw [hd] at hget; exact Or.inl (Option.some.inj hget).symm
          · by_cases heq : fp' = fp
            · rw [heq, hd] at hget; exact Or.inl (Option.some.inj hget).symm
            · exact Or.inr ⟨fp', hfp', by rw [if_neg heq]; exact hget⟩
      · rw [List.foldl_cons, revokeOne, hd]
        dsimp only
        rw [hfold, OrderedMap.delete_without]
        rfl

theorem applyRevokeDevice_eq {p : RevokeDevicePayload} {s : MutableChainState} {target : ChainMember}
    (h : s.members.get? p.targetUserId = some target) :
    ∃ removed : List ChainDevice,
      (∀ d, d ∈ removed ↔ ∃ fp ∈ p.deviceFingerprintsHex, target.devices.get? fp = some d) ∧
      applyRevokeDevice p s = setMember (removed.foldl unindexDeviceKeys s) target.userId
        (memberWithoutDevices p.deviceFingerprintsHex target) := by
  obtain ⟨removed, hmem, hfold⟩ := foldl_revokeOne p.deviceFingerprintsHex target.devices s
  refine ⟨removed, hmem, ?_⟩
  rw [applyRevokeDevice, h]
  dsimp only
  rw [hfold]
  rfl

theorem applyChangeRole_eq {p : ChangeRolePayload} {s : MutableChainState} {target : ChainMember}
    (h : s.members.get? p.targetUserId = some target) :
    applyChangeRole p s = setMember s target.userId (changedMember p target) := by
  rw [applyChangeRole, h]; rfl

theorem applyAddDevice_eq {crypto : Crypto} {p : AddDevicePayload} {s : MutableChainState} {seq : Nat}
    {u : UserId} {member : ChainMember} (h : s.members.get? u = some member) :
    applyAddDevice crypto p s seq u =
      indexDeviceKeys (setMember s member.userId (memberWithDevice (addedDevice crypto p seq) member))
        (addedDevice crypto p seq) := by
  rw [applyAddDevice, h]; rfl

theorem applyRemoveMember_eq {p : RemoveMemberPayload} {s : MutableChainState} {target : ChainMember}
    (h : s.members.get? p.targetUserId = some target) :
    applyRemoveMember p s = target.devices.values.foldl unindexDeviceKeys
      { s with members := s.members.delete target.userId } := by
  rw [applyRemoveMember, h]

theorem get?_set_map {α β : Type} [DecidableEq α] {m : OrderedMap α β} {k v : α} {old : β} (f : β → β)
    (h : m.get? k = some old) :
    (m.set k (f old)).get? v = if v = k then (m.get? v).map f else m.get? v := by
  rw [OrderedMap.get?_set]
  split_ifs with hv
  · rw [hv, h]; rfl
  · rfl

theorem get?_members_applyOperation {crypto : Crypto} {s : MutableChainState} (hk : WellKeyed crypto s)
    (operation : ProposableOperation)
    (hexists : ∀ p, operation = .deleteEnvironment p → s.environments.get? p.environmentId ≠ none)
    (seq : Nat) (actorUserId v : UserId) :
    (applyOperation crypto operation s seq actorUserId).members.get? v =
      memberAfter crypto operation seq actorUserId v (s.members.get? v) := by
  have hnone : ∀ {u : UserId} (f : ChainMember → ChainMember), s.members.get? u = none →
      s.members.get? v = if v = u then (s.members.get? v).map f else s.members.get? v := by
    intro u f hu
    split_ifs with hv
    · rw [hv, hu]; rfl
    · rfl
  cases operation with
  | addMember p => exact OrderedMap.get?_set _ _ _ _
  | changeRole p =>
    simp only [applyOperation, memberAfter]
    cases ht : s.members.get? p.targetUserId with
    | none => rw [applyChangeRole, ht]; exact hnone _ ht
    | some target =>
      rw [applyChangeRole_eq ht, hk.member _ _ ht]
      exact get?_set_map (changedMember p) ht
  | removeMember p =>
    simp only [applyOperation, memberAfter]
    cases ht : s.members.get? p.targetUserId with
    | none =>
      rw [applyRemoveMember, ht]
      dsimp only
      split_ifs with hv
      · rw [hv]; exact ht
      · rfl
    | some target =>
      rw [applyRemoveMember_eq ht, foldl_unindex, hk.member _ _ ht]
      exact OrderedMap.get?_delete _ _ _
  | deleteEnvironment p =>
    simp only [applyOperation, applyDeleteEnvironment, memberAfter]
    cases he : s.environments.get? p.environmentId with
    | none => exact absurd he (hexists p rfl)
    | some environment =>
      dsimp only
      rw [OrderedMap.foldl_set_values (fun m : ChainMember => m.userId) _ _ hk.member, OrderedMap.get?_mapValues]
  | addDevice p =>
    simp only [applyOperation, memberAfter]
    cases ht : s.members.get? actorUserId with
    | none => rw [applyAddDevice, ht]; exact hnone _ ht
    | some member =>
      rw [applyAddDevice_eq ht, hk.member _ _ ht]
      exact get?_set_map (memberWithDevice (addedDevice crypto p seq)) ht
  | revokeDevice p =>
    simp only [applyOperation, memberAfter]
    cases ht : s.members.get? p.targetUserId with
    | none => rw [applyRevokeDevice, ht]; exact hnone _ ht
    | some target =>
      obtain ⟨removed, -, heq⟩ := applyRevokeDevice_eq ht
      rw [heq, foldl_unindex, hk.member _ _ ht]
      exact get?_set_map (memberWithoutDevices p.deviceFingerprintsHex) ht
  | rotateEpoch p =>
    simp only [applyOperation, applyRotateEpoch, memberAfter]
    cases s.environments.get? p.environmentId <;> rfl
  | _ => rfl

/-! ## Environments, grants, checkpoints -/

def newEnvironment (p : CreateEnvironmentPayload) (seq : Nat) : EnvironmentChainState where
  currentEpoch := initialEpoch
  createdAtSeq := seq
  deletedAtSeq := none
  epochStartSeqs := OrderedMap.empty.set initialEpoch seq
  dekCommitments := OrderedMap.empty.set initialEpoch p.dekCommitmentHex

def rotatedEnvironment (p : RotateEpochPayload) (seq : Nat) (environment : EnvironmentChainState) :
    EnvironmentChainState :=
  { environment with
    currentEpoch := p.newEpoch
    epochStartSeqs := environment.epochStartSeqs.set p.newEpoch seq
    dekCommitments := environment.dekCommitments.set p.newEpoch p.dekCommitmentHex }

def deletedEnvironment (seq : Nat) (environment : EnvironmentChainState) : EnvironmentChainState :=
  { environment with deletedAtSeq := some seq }

def environmentAfter (operation : ProposableOperation) (seq : Nat) (e : EnvironmentId)
    (old : Option EnvironmentChainState) : Option EnvironmentChainState :=
  match operation with
  | .createEnvironment p => if e = p.environmentId then some (newEnvironment p seq) else old
  | .deleteEnvironment p => if e = p.environmentId then old.map (deletedEnvironment seq) else old
  | .rotateEpoch p => if e = p.environmentId then old.map (rotatedEnvironment p seq) else old
  | _ => old

attribute [grind =] environmentAfter

def newGrant (p : GrantServerPayload) (seq : Nat) : ServerGrant where
  serverKeyFingerprintHex := p.serverKeyFingerprintHex
  serverEncPubHex := p.serverEncPubHex
  grantSeq := seq
  scopeEnvironmentIds := p.scopeEnvironmentIds
  leasePolicy := p.leasePolicy

def grantAfter (operation : ProposableOperation) (seq : Nat) (fp : KeyFingerprintHex)
    (old : Option ServerGrant) : Option ServerGrant :=
  match operation with
  | .grantServer p => if fp = p.serverKeyFingerprintHex then some (newGrant p seq) else old
  | .revokeServer p => if fp = p.serverKeyFingerprintHex then none else old
  | .deleteEnvironment p => old.map (pruneGrant p.environmentId)
  | _ => old

attribute [grind =] grantAfter

def checkpointAfter (operation : ProposableOperation) (seq : Nat) (e : EnvironmentId)
    (old : Option EnvironmentCheckpointState) : Option EnvironmentCheckpointState :=
  match operation with
  | .deleteEnvironment p => if e = p.environmentId then none else old
  | .checkpoint p =>
    ((p.environments.reverse.find? fun tuple => tuple.environmentId = e).map (checkpointStateOf · seq)).or old
  | _ => old

attribute [grind =] checkpointAfter

/-- What the member operations leave alone. -/
structure SameBoard (s s' : MutableChainState) : Prop where
  environments : s'.environments = s.environments
  serverGrants : s'.serverGrants = s.serverGrants
  checkpoints : s'.checkpoints = s.checkpoints
  namedServerKeys : s'.namedServerKeys = s.namedServerKeys
  approvalPolicy : s'.approvalPolicy = s.approvalPolicy
  pendingProposals : s'.pendingProposals = s.pendingProposals

theorem sameBoard_refl (s : MutableChainState) : SameBoard s s := ⟨rfl, rfl, rfl, rfl, rfl, rfl⟩

theorem applyChangeRole_board (p : ChangeRolePayload) (s : MutableChainState) : SameBoard s (applyChangeRole p s) := by
  unfold applyChangeRole
  split
  · exact sameBoard_refl s
  · exact ⟨rfl, rfl, rfl, rfl, rfl, rfl⟩

theorem applyAddDevice_board (crypto : Crypto) (p : AddDevicePayload) (s : MutableChainState) (seq : Nat)
    (u : UserId) : SameBoard s (applyAddDevice crypto p s seq u) := by
  unfold applyAddDevice
  split
  · exact sameBoard_refl s
  · exact ⟨rfl, rfl, rfl, rfl, rfl, rfl⟩

theorem applyRemoveMember_board (p : RemoveMemberPayload) (s : MutableChainState) :
    SameBoard s (applyRemoveMember p s) := by
  cases ht : s.members.get? p.targetUserId with
  | none => rw [applyRemoveMember, ht]; exact sameBoard_refl s
  | some target =>
    rw [applyRemoveMember_eq ht, foldl_unindex]
    exact ⟨rfl, rfl, rfl, rfl, rfl, rfl⟩

theorem applyRevokeDevice_board (p : RevokeDevicePayload) (s : MutableChainState) :
    SameBoard s (applyRevokeDevice p s) := by
  cases ht : s.members.get? p.targetUserId with
  | none => rw [applyRevokeDevice, ht]; exact sameBoard_refl s
  | some target =>
    obtain ⟨removed, -, heq⟩ := applyRevokeDevice_eq ht
    rw [heq, foldl_unindex]
    exact ⟨rfl, rfl, rfl, rfl, rfl, rfl⟩

theorem get?_environments_applyOperation (crypto : Crypto) (operation : ProposableOperation)
    (s : MutableChainState) (seq : Nat) (u : UserId) (e : EnvironmentId) :
    (applyOperation crypto operation s seq u).environments.get? e =
      environmentAfter operation seq e (s.environments.get? e) := by
  have hnone : ∀ {e' : EnvironmentId} (f : EnvironmentChainState → EnvironmentChainState),
      s.environments.get? e' = none →
      s.environments.get? e = if e = e' then (s.environments.get? e).map f else s.environments.get? e := by
    intro e' f he'
    split_ifs with hv
    · rw [hv, he']; rfl
    · rfl
  cases operation with
  | changeRole p => simp only [applyOperation, (applyChangeRole_board p s).environments, environmentAfter]
  | addDevice p => simp only [applyOperation, (applyAddDevice_board crypto p s seq u).environments, environmentAfter]
  | removeMember p => simp only [applyOperation, (applyRemoveMember_board p s).environments, environmentAfter]
  | revokeDevice p => simp only [applyOperation, (applyRevokeDevice_board p s).environments, environmentAfter]
  | createEnvironment p => exact OrderedMap.get?_set _ _ _ _
  | deleteEnvironment p =>
    simp only [applyOperation, environmentAfter]
    cases he : s.environments.get? p.environmentId with
    | none => rw [applyDeleteEnvironment, he]; exact hnone _ he
    | some environment =>
      rw [applyDeleteEnvironment, he]
      exact get?_set_map (deletedEnvironment seq) he
  | rotateEpoch p =>
    simp only [applyOperation, environmentAfter]
    cases he : s.environments.get? p.environmentId with
    | none => rw [applyRotateEpoch, he]; exact hnone _ he
    | some environment =>
      rw [applyRotateEpoch, he]
      exact get?_set_map (rotatedEnvironment p seq) he
  | _ => rfl

theorem get?_serverGrants_applyOperation {crypto : Crypto} {s : MutableChainState} (hk : WellKeyed crypto s)
    (operation : ProposableOperation)
    (hexists : ∀ p, operation = .deleteEnvironment p → s.environments.get? p.environmentId ≠ none)
    (seq : Nat) (u : UserId) (fp : KeyFingerprintHex) :
    (applyOperation crypto operation s seq u).serverGrants.get? fp =
      grantAfter operation seq fp (s.serverGrants.get? fp) := by
  cases operation with
  | changeRole p => simp only [applyOperation, (applyChangeRole_board p s).serverGrants, grantAfter]
  | addDevice p => simp only [applyOperation, (applyAddDevice_board crypto p s seq u).serverGrants, grantAfter]
  | removeMember p => simp only [applyOperation, (applyRemoveMember_board p s).serverGrants, grantAfter]
  | revokeDevice p => simp only [applyOperation, (applyRevokeDevice_board p s).serverGrants, grantAfter]
  | grantServer p => exact OrderedMap.get?_set _ _ _ _
  | revokeServer p => exact OrderedMap.get?_delete _ _ _
  | deleteEnvironment p =>
    simp only [applyOperation, applyDeleteEnvironment, grantAfter]
    cases he : s.environments.get? p.environmentId with
    | none => exact absurd he (hexists p rfl)
    | some environment =>
      dsimp only
      rw [OrderedMap.foldl_set_values (fun g : ServerGrant => g.serverKeyFingerprintHex) _ _ hk.grant,
        OrderedMap.get?_mapValues]
  | rotateEpoch p =>
    simp only [applyOperation, applyRotateEpoch, grantAfter]
    cases s.environments.get? p.environmentId <;> rfl
  | _ => rfl

theorem get?_checkpoints_applyOperation (crypto : Crypto) (operation : ProposableOperation)
    (s : MutableChainState)
    (hexists : ∀ p, operation = .deleteEnvironment p → s.environments.get? p.environmentId ≠ none)
    (seq : Nat) (u : UserId) (e : EnvironmentId) :
    (applyOperation crypto operation s seq u).checkpoints.get? e =
      checkpointAfter operation seq e (s.checkpoints.get? e) := by
  cases operation with
  | changeRole p => simp only [applyOperation, (applyChangeRole_board p s).checkpoints, checkpointAfter]
  | addDevice p => simp only [applyOperation, (applyAddDevice_board crypto p s seq u).checkpoints, checkpointAfter]
  | removeMember p => simp only [applyOperation, (applyRemoveMember_board p s).checkpoints, checkpointAfter]
  | revokeDevice p => simp only [applyOperation, (applyRevokeDevice_board p s).checkpoints, checkpointAfter]
  | checkpoint p => exact OrderedMap.get?_foldl_set_eq _ _ _ _ _
  | deleteEnvironment p =>
    simp only [applyOperation, applyDeleteEnvironment, checkpointAfter]
    cases he : s.environments.get? p.environmentId with
    | none => exact absurd he (hexists p rfl)
    | some environment => exact OrderedMap.get?_delete _ _ _
  | rotateEpoch p =>
    simp only [applyOperation, applyRotateEpoch, checkpointAfter]
    cases s.environments.get? p.environmentId <;> rfl
  | _ => rfl

/-! ## The rest -/

theorem pendingProposals_applyOperation (crypto : Crypto) (operation : ProposableOperation)
    (s : MutableChainState) (seq : Nat) (u : UserId) :
    (applyOperation crypto operation s seq u).pendingProposals = s.pendingProposals := by
  cases operation with
  | changeRole p => exact (applyChangeRole_board p s).pendingProposals
  | addDevice p => exact (applyAddDevice_board crypto p s seq u).pendingProposals
  | removeMember p => exact (applyRemoveMember_board p s).pendingProposals
  | revokeDevice p => exact (applyRevokeDevice_board p s).pendingProposals
  | deleteEnvironment p =>
    simp only [applyOperation, applyDeleteEnvironment]
    cases s.environments.get? p.environmentId <;> rfl
  | rotateEpoch p =>
    simp only [applyOperation, applyRotateEpoch]
    cases s.environments.get? p.environmentId <;> rfl
  | _ => rfl

theorem approvalPolicy_applyOperation {crypto : Crypto} {operation : ProposableOperation}
    (s : MutableChainState) (seq : Nat) (u : UserId) (h : isSetApprovalPolicy operation = false) :
    (applyOperation crypto operation s seq u).approvalPolicy = s.approvalPolicy := by
  cases operation with
  | setApprovalPolicy p => cases h
  | changeRole p => exact (applyChangeRole_board p s).approvalPolicy
  | addDevice p => exact (applyAddDevice_board crypto p s seq u).approvalPolicy
  | removeMember p => exact (applyRemoveMember_board p s).approvalPolicy
  | revokeDevice p => exact (applyRevokeDevice_board p s).approvalPolicy
  | deleteEnvironment p =>
    simp only [applyOperation, applyDeleteEnvironment]
    cases s.environments.get? p.environmentId <;> rfl
  | rotateEpoch p =>
    simp only [applyOperation, applyRotateEpoch]
    cases s.environments.get? p.environmentId <;> rfl
  | _ => rfl

theorem namedServerKeys_applyOperation (crypto : Crypto) (operation : ProposableOperation)
    (s : MutableChainState) (seq : Nat) (u : UserId) :
    (applyOperation crypto operation s seq u).namedServerKeys =
      match operation with
      | .grantServer p => s.namedServerKeys.set p.serverEncPubHex p.serverKeyFingerprintHex
      | _ => s.namedServerKeys := by
  cases operation with
  | changeRole p => exact (applyChangeRole_board p s).namedServerKeys
  | addDevice p => exact (applyAddDevice_board crypto p s seq u).namedServerKeys
  | removeMember p => exact (applyRemoveMember_board p s).namedServerKeys
  | revokeDevice p => exact (applyRevokeDevice_board p s).namedServerKeys
  | deleteEnvironment p =>
    simp only [applyOperation, applyDeleteEnvironment]
    cases s.environments.get? p.environmentId <;> rfl
  | rotateEpoch p =>
    simp only [applyOperation, applyRotateEpoch]
    cases s.environments.get? p.environmentId <;> rfl
  | _ => rfl

end Maruhi.Chain
