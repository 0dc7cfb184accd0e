import Maruhi.Chain.Wire
import Maruhi.Lib.Index

/-!
# Key uniqueness

No two current devices share an enc key or a sig key, none holds a key a grant has named, and
the two indexes are exact.
-/

namespace Maruhi.Chain

/-! ## The keys a list registers -/

def registeredKey : ProposableOperation → Option (JsString × JsString)
  | .genesis p => some (p.encPubHex, p.sigPubHex)
  | .addMember p => some (p.encPubHex, p.sigPubHex)
  | .addDevice p => some (p.encPubHex, p.sigPubHex)
  | _ => none

/-- The key pairs the entries bring in, for themselves or in a proposal. -/
def registeredKeys (entries : List Json) : List (JsString × JsString) :=
  (operationsIn entries).filterMap registeredKey

/-- Distinct key pairs of the list have distinct fingerprints. -/
def FingerprintsDistinct (crypto : Crypto) (entries : List Json) : Prop :=
  ∀ k ∈ registeredKeys entries, ∀ k' ∈ registeredKeys entries,
    userFingerprintHex crypto k.1 k.2 = userFingerprintHex crypto k'.1 k'.2 → k = k'

instance (crypto : Crypto) (entries : List Json) : Decidable (FingerprintsDistinct crypto entries) :=
  inferInstanceAs (Decidable (∀ k ∈ registeredKeys entries, ∀ k' ∈ registeredKeys entries,
    userFingerprintHex crypto k.1 k.2 = userFingerprintHex crypto k'.1 k'.2 → k = k'))

theorem mem_registeredKeys {entries : List Json} {op : ProposableOperation} {k : JsString × JsString}
    (hop : op ∈ operationsIn entries) (hk : registeredKey op = some k) : k ∈ registeredKeys entries :=
  List.mem_filterMap.mpr ⟨op, hop, hk⟩

/-! ## Current devices -/

def currentDevice (s : MutableChainState) (place : UserId × KeyFingerprintHex) : Option ChainDevice :=
  (s.members.get? place.1).bind fun m => m.devices.get? place.2

attribute [grind =] currentDevice

theorem currentDevice_eq_some {s : MutableChainState} {u : UserId} {fp : KeyFingerprintHex} {d : ChainDevice} :
    currentDevice s (u, fp) = some d ↔ ∃ m, deviceOf s.members u fp = some (m, d) := by
  simp only [currentDevice, Option.bind_eq_some_iff, deviceOf_eq_some]

/-- What stands at a place after the operation, from the device before. -/
def placeAfter (crypto : Crypto) (operation : ProposableOperation) (seq : Nat) (actorUserId : UserId)
    (place : UserId × KeyFingerprintHex) (old : Option ChainDevice) : Option ChainDevice :=
  match operation with
  | .addMember p =>
    let device := firstDeviceOf p.encPubHex p.sigPubHex (userFingerprintHex crypto p.encPubHex p.sigPubHex) seq
    if place = (p.targetUserId, device.keyFingerprintHex) then some device else old
  | .removeMember p => if place.1 = p.targetUserId then none else old
  | .deleteEnvironment p => old.map (pruneDevice p.environmentId)
  | .addDevice p =>
    let device := addedDevice crypto p seq
    if place = (actorUserId, device.keyFingerprintHex) then some device else old
  | .revokeDevice p =>
    if place.1 = p.targetUserId ∧ place.2 ∈ p.deviceFingerprintsHex then none else old
  | _ => old

theorem currentDevice_apply {crypto : Crypto} {s : MutableChainState} (hk : WellKeyed crypto s)
    {op : ProposableOperation} {u : UserId} {fp : KeyFingerprintHex} {m : ChainMember} {d : ChainDevice}
    (auth : Authorized crypto s op u fp m d) (seq : Nat) (place : UserId × KeyFingerprintHex) :
    currentDevice (applyOperation crypto op s seq m.userId) place =
      placeAfter crypto op seq m.userId place (currentDevice s place) := by
  obtain ⟨v, f⟩ := place
  have hmem := get?_members_applyOperation hk op auth.exists_environment seq m.userId v
  have hactor := (deviceOf_eq_some.mp auth.device).1
  have hu := hk.member _ _ hactor
  simp only [currentDevice, hmem]
  cases op with
  | addMember p =>
    have hfresh := (addMemberReason_eq_none auth.rules).fresh
    simp only [memberAfter, placeAfter, Prod.mk.injEq]
    by_cases hv : v = p.targetUserId
    · rw [if_pos hv, hv, hfresh, Option.bind_some, newMember, soleDevice, OrderedMap.get?_set]
      by_cases hf : f = userFingerprintHex crypto p.encPubHex p.sigPubHex <;> simp [firstDeviceOf, hf]
    · simp [hv]
  | changeRole p =>
    simp only [memberAfter, placeAfter]
    split_ifs
    · rw [Option.bind_map]; rfl
    · rfl
  | removeMember p =>
    simp only [memberAfter, placeAfter]
    split_ifs <;> rfl
  | deleteEnvironment p =>
    simp only [memberAfter, placeAfter, Option.bind_map]
    cases s.members.get? v with
    | none => rfl
    | some x => exact OrderedMap.get?_mapValues _ _ _
  | addDevice p =>
    simp only [memberAfter, placeAfter, Prod.mk.injEq]
    by_cases hv : v = m.userId
    · rw [if_pos hv, hv, hu, hactor, Option.map_some, Option.bind_some, Option.bind_some, memberWithDevice,
        OrderedMap.get?_set]
      simp
    · simp [hv]
  | revokeDevice p =>
    simp only [memberAfter, placeAfter]
    by_cases hv : v = p.targetUserId
    · rw [if_pos hv]
      cases s.members.get? v with
      | none => simp
      | some x =>
        rw [Option.map_some, Option.bind_some, memberWithoutDevices, OrderedMap.get?_without]
        simp [hv]
    · simp [hv]
  | _ => rfl

/-! ## What an operation does to the keys in use -/

/-- What an operation does to the current devices, their indexes and the keys that grants name. -/
inductive KeyStep (crypto : Crypto) (op : ProposableOperation) (s s' : MutableChainState) : Prop
  | enters (u : UserId) (d : ChainDevice)
      (hfp : d.keyFingerprintHex = userFingerprintHex crypto d.encPubHex d.sigPubHex)
      (hop : registeredKey op = some (d.encPubHex, d.sigPubHex))
      (hkeys : registersTakenKey s d.encPubHex d.sigPubHex = false)
      (hcurrent : ∀ i, currentDevice s' i = if i = (u, d.keyFingerprintHex) then some d else currentDevice s i)
      (henc : s'.memberEncPubs = s.memberEncPubs.set d.encPubHex ())
      (hsig : s'.memberSigPubs = s.memberSigPubs.set d.sigPubHex ())
      (hnamed : s'.namedServerKeys = s.namedServerKeys) (hgrants : s'.serverGrants = s.serverGrants)
  | leaves (gone : UserId × KeyFingerprintHex → Prop) (hdec : DecidablePred gone)
      (hcurrent : ∀ i, currentDevice s' i = if gone i then none else currentDevice s i)
      (removed : List ChainDevice) (hremoved : ∀ d, d ∈ removed ↔ ∃ i, gone i ∧ currentDevice s i = some d)
      (henc : s'.memberEncPubs = s.memberEncPubs.without (removed.map (·.encPubHex)))
      (hsig : s'.memberSigPubs = s.memberSigPubs.without (removed.map (·.sigPubHex)))
      (hnamed : s'.namedServerKeys = s.namedServerKeys) (hgrants : s'.serverGrants = s.serverGrants)
  | rewrites (f : ChainDevice → ChainDevice) (hf : ∀ d, (f d).encPubHex = d.encPubHex ∧ (f d).sigPubHex = d.sigPubHex)
      (hcurrent : ∀ i, currentDevice s' i = (currentDevice s i).map f)
      (henc : s'.memberEncPubs = s.memberEncPubs) (hsig : s'.memberSigPubs = s.memberSigPubs)
      (hnamed : s'.namedServerKeys = s.namedServerKeys)
      (hgrants : ∀ fp g, s'.serverGrants.get? fp = some g →
        ∃ g', s.serverGrants.get? fp = some g' ∧ g'.serverEncPubHex = g.serverEncPubHex)
  | names (p : GrantServerPayload) (seq : Nat) (hop : op = .grantServer p) (hok : GrantServerOk crypto p s)
      (hs : s' = applyGrantServer p s seq)

theorem KeyStep.keeps {crypto : Crypto} {op : ProposableOperation} {s s' : MutableChainState}
    (hcurrent : ∀ i, currentDevice s' i = currentDevice s i) (henc : s'.memberEncPubs = s.memberEncPubs)
    (hsig : s'.memberSigPubs = s.memberSigPubs) (hnamed : s'.namedServerKeys = s.namedServerKeys)
    (hgrants : ∀ fp g, s'.serverGrants.get? fp = some g → s.serverGrants.get? fp = some g) : KeyStep crypto op s s' :=
  .rewrites id (fun _ => ⟨rfl, rfl⟩) (fun i => by rw [hcurrent, Option.map_id]; rfl) henc hsig hnamed
    fun fp g hg => ⟨g, hgrants fp g hg, rfl⟩

theorem keyStep_apply {crypto : Crypto} {s : MutableChainState} (hk : WellKeyed crypto s) {op : ProposableOperation}
    {u : UserId} {fp : KeyFingerprintHex} {m : ChainMember} {d : ChainDevice} (auth : Authorized crypto s op u fp m d)
    (seq : Nat) : KeyStep crypto op s (applyOperation crypto op s seq m.userId) := by
  have hcur := currentDevice_apply hk auth seq
  have hactor := (deviceOf_eq_some.mp auth.device).1
  have hu := hk.member _ _ hactor
  cases op with
  | genesis p => exact .keeps (fun _ => rfl) rfl rfl rfl fun _ _ hg => hg
  | addMember p =>
    exact .enters p.targetUserId
      (firstDeviceOf p.encPubHex p.sigPubHex (userFingerprintHex crypto p.encPubHex p.sigPubHex) seq) rfl rfl
      (addMemberReason_eq_none auth.rules).keys hcur rfl rfl rfl rfl
  | addDevice p =>
    have heq : applyOperation crypto (.addDevice p) s seq m.userId =
        applyAddDevice crypto p s seq m.userId := rfl
    rw [applyAddDevice_eq (by rw [hu]; exact hactor)] at heq
    exact .enters m.userId (addedDevice crypto p seq) rfl rfl (addDeviceReason_eq_none auth.rules).keys hcur
      (by rw [heq]; rfl) (by rw [heq]; rfl) (by rw [heq]; rfl) (by rw [heq]; rfl)
  | removeMember p =>
    obtain ⟨target, htarget⟩ := removeMemberReason_eq_none auth.rules
    have hfound := htarget.resolved.member
    have heq : applyOperation crypto (.removeMember p) s seq m.userId = applyRemoveMember p s := rfl
    rw [applyRemoveMember_eq hfound, foldl_unindex] at heq
    refine .leaves (fun i => i.1 = p.targetUserId) inferInstance hcur target.devices.values ?_
      (by rw [heq]) (by rw [heq]) (by rw [heq]) (by rw [heq])
    intro e
    rw [OrderedMap.mem_values]
    constructor
    · rintro ⟨f, hf⟩; exact ⟨(p.targetUserId, f), rfl, by rw [currentDevice, hfound]; exact hf⟩
    · rintro ⟨⟨v, f⟩, rfl, he⟩
      rw [currentDevice, hfound] at he
      exact ⟨f, he⟩
  | revokeDevice p =>
    obtain ⟨target, htarget⟩ := revokeDeviceReason_eq_none auth.rules
    have hfound := htarget.member
    obtain ⟨removed, hmem, heq⟩ := applyRevokeDevice_eq hfound
    rw [foldl_unindex] at heq
    have heq : applyOperation crypto (.revokeDevice p) s seq m.userId = _ := heq
    refine .leaves (fun i => i.1 = p.targetUserId ∧ i.2 ∈ p.deviceFingerprintsHex) inferInstance hcur
      removed ?_ (by rw [heq]; rfl) (by rw [heq]; rfl) (by rw [heq]; rfl) (by rw [heq]; rfl)
    intro e
    rw [hmem]
    constructor
    · rintro ⟨f, hf, he⟩; exact ⟨(p.targetUserId, f), ⟨rfl, hf⟩, by rw [currentDevice, hfound]; exact he⟩
    · rintro ⟨⟨v, f⟩, ⟨rfl, hf⟩, he⟩
      rw [currentDevice, hfound] at he
      exact ⟨f, hf, he⟩
  | changeRole p =>
    obtain ⟨target, htarget⟩ := changeRoleReason_eq_none auth.rules
    have heq : applyOperation crypto (.changeRole p) s seq m.userId = applyChangeRole p s := rfl
    rw [applyChangeRole_eq htarget.resolved.member] at heq
    exact .keeps hcur (by rw [heq]; rfl) (by rw [heq]; rfl) (by rw [heq]; rfl)
      fun f g hg => by rw [heq] at hg; exact hg
  | grantServer p => exact .names p seq rfl (grantServerReason_eq_none auth.rules) rfl
  | revokeServer p =>
    refine .keeps hcur rfl rfl rfl fun f g hg => ?_
    have hg := (OrderedMap.get?_delete _ _ _).symm.trans hg
    split_ifs at hg
    exact hg
  | deleteEnvironment p =>
    obtain ⟨⟨environment, henv, -⟩, -⟩ := deleteEnvironmentReason_eq_none auth.rules
    have hgrants := get?_serverGrants_applyOperation hk (.deleteEnvironment p) auth.exists_environment seq m.userId
    have heq : applyOperation crypto (.deleteEnvironment p) s seq m.userId = applyDeleteEnvironment p s seq := rfl
    rw [applyDeleteEnvironment, henv] at heq
    refine .rewrites (pruneDevice p.environmentId) (fun _ => ⟨rfl, rfl⟩) hcur (by rw [heq]) (by rw [heq]) (by rw [heq]) ?_
    intro f g hg
    rw [hgrants] at hg
    obtain ⟨g', hg', rfl⟩ := Option.map_eq_some_iff.mp hg
    exact ⟨g', hg', rfl⟩
  | rotateEpoch p =>
    obtain ⟨environment, henv⟩ := rotateEpochReason_eq_none auth.rules
    have heq : applyOperation crypto (.rotateEpoch p) s seq m.userId = applyRotateEpoch p s seq := rfl
    rw [applyRotateEpoch, henv.found] at heq
    exact .keeps hcur (by rw [heq]) (by rw [heq]) (by rw [heq]) fun f g hg => by rw [heq] at hg; exact hg
  | createEnvironment p => exact .keeps hcur rfl rfl rfl fun _ _ hg => hg
  | checkpoint p => exact .keeps hcur rfl rfl rfl fun _ _ hg => hg
  | setApprovalPolicy p => exact .keeps hcur rfl rfl rfl fun _ _ hg => hg

theorem keyStep_genesis {crypto : Crypto} {p : GenesisPayload} {actor : ChainActor}
    (hfp : userFingerprintHex crypto p.encPubHex p.sigPubHex = actor.keyFingerprintHex) :
    KeyStep crypto (.genesis p) .initial (applyGenesis p actor 1 .initial) := by
  refine .enters actor.userId (firstDeviceOf p.encPubHex p.sigPubHex actor.keyFingerprintHex 1) hfp.symm rfl rfl ?_
    rfl rfl rfl rfl
  rintro ⟨v, f⟩
  have hget := OrderedMap.get?_set MutableChainState.initial.members actor.userId v
    { userId := actor.userId, role := .owner, scope := .all,
      devices := soleDevice (firstDeviceOf p.encPubHex p.sigPubHex actor.keyFingerprintHex 1) }
  have hcur : currentDevice (applyGenesis p actor 1 .initial) (v, f) = _ :=
    congrArg (fun x : Option ChainMember => x.bind fun m => m.devices.get? f) hget
  rw [hcur]
  by_cases hv : v = actor.userId
  · by_cases hf : f = actor.keyFingerprintHex <;>
      simp [hv, hf, soleDevice, OrderedMap.get?_set, firstDeviceOf, currentDevice, MutableChainState.initial]
  · simp [hv, currentDevice, MutableChainState.initial]

/-! ## The invariant -/

/-- `K` holds every key pair the list registers. -/
structure KeysUnique (K : List (JsString × JsString)) (s : MutableChainState) : Prop where
  enc : Indexed (·.encPubHex) s.memberEncPubs (currentDevice s)
  sig : Indexed (·.sigPubHex) s.memberSigPubs (currentDevice s)
  unnamed : ∀ place d, currentDevice s place = some d → s.namedServerKeys.get? d.encPubHex = none
  named : ∀ fp g, s.serverGrants.get? fp = some g → ∃ key, s.namedServerKeys.get? g.serverEncPubHex = some key
  registered : ∀ place d, currentDevice s place = some d → (d.encPubHex, d.sigPubHex) ∈ K

theorem keysUnique_initial (K : List (JsString × JsString)) : KeysUnique K .initial :=
  ⟨Indexed.empty _, Indexed.empty _, fun _ _ h => (nomatch h), fun _ _ h => (nomatch h),
    fun _ _ h => (nomatch h)⟩

section Steps
variable {crypto : Crypto} {K : List (JsString × JsString)} {s s' : MutableChainState}

theorem keysUnique_add (h : KeysUnique K s) (place : UserId × KeyFingerprintHex) (d : ChainDevice)
    (hfree : currentDevice s place = none) (hkeys : registersTakenKey s d.encPubHex d.sigPubHex = false)
    (hK : (d.encPubHex, d.sigPubHex) ∈ K)
    (hcurrent : ∀ i, currentDevice s' i = if i = place then some d else currentDevice s i)
    (henc : s'.memberEncPubs = s.memberEncPubs.set d.encPubHex ())
    (hsig : s'.memberSigPubs = s.memberSigPubs.set d.sigPubHex ())
    (hnamed : s'.namedServerKeys = s.namedServerKeys) (hgrants : s'.serverGrants = s.serverGrants) :
    KeysUnique K s' := by
  obtain ⟨hfreeEnc, hfreeSig, hfreeNamed⟩ := registersTakenKey_eq_false.mp hkeys
  refine ⟨?_, ?_, ?_, ?_, ?_⟩
  · rw [henc]; exact h.enc.add hfreeEnc hfree hcurrent
  · rw [hsig]; exact h.sig.add hfreeSig hfree hcurrent
  · intro i e he
    rw [hcurrent] at he
    rw [hnamed]
    split_ifs at he with hi
    · cases he; exact hfreeNamed
    · exact h.unnamed i e he
  · rw [hnamed, hgrants]; exact h.named
  · intro i e he
    rw [hcurrent] at he
    split_ifs at he with hi
    · cases he; exact hK
    · exact h.registered i e he

theorem keysUnique_remove (h : KeysUnique K s) (gone : UserId × KeyFingerprintHex → Prop) [DecidablePred gone]
    (hcurrent : ∀ i, currentDevice s' i = if gone i then none else currentDevice s i)
    (removed : List ChainDevice) (hremoved : ∀ d, d ∈ removed ↔ ∃ i, gone i ∧ currentDevice s i = some d)
    (henc : s'.memberEncPubs = s.memberEncPubs.without (removed.map (·.encPubHex)))
    (hsig : s'.memberSigPubs = s.memberSigPubs.without (removed.map (·.sigPubHex)))
    (hnamed : s'.namedServerKeys = s.namedServerKeys) (hgrants : s'.serverGrants = s.serverGrants) :
    KeysUnique K s' := by
  have hks : ∀ (key : ChainDevice → JsString) k,
      k ∈ removed.map key ↔ ∃ i x, gone i ∧ currentDevice s i = some x ∧ key x = k := by
    intro key k
    simp only [List.mem_map, hremoved]
    constructor
    · rintro ⟨x, ⟨i, hi, hx⟩, rfl⟩; exact ⟨i, x, hi, hx, rfl⟩
    · rintro ⟨i, x, hi, hx, rfl⟩; exact ⟨x, ⟨i, hi, hx⟩, rfl⟩
  have hold : ∀ i d, currentDevice s' i = some d → currentDevice s i = some d := by
    intro i d hd
    rw [hcurrent] at hd
    split_ifs at hd
    exact hd
  refine ⟨?_, ?_, ?_, ?_, fun i d hd => h.registered i d (hold i d hd)⟩
  · rw [henc]; exact h.enc.remove gone hcurrent (hks _)
  · rw [hsig]; exact h.sig.remove gone hcurrent (hks _)
  · intro i d hd; rw [hnamed]; exact h.unnamed i d (hold i d hd)
  · rw [hnamed, hgrants]; exact h.named

theorem keysUnique_map (h : KeysUnique K s) (f : ChainDevice → ChainDevice)
    (hf : ∀ d, (f d).encPubHex = d.encPubHex ∧ (f d).sigPubHex = d.sigPubHex)
    (hcurrent : ∀ i, currentDevice s' i = (currentDevice s i).map f)
    (henc : s'.memberEncPubs = s.memberEncPubs) (hsig : s'.memberSigPubs = s.memberSigPubs)
    (hnamed : s'.namedServerKeys = s.namedServerKeys)
    (hgrants : ∀ fp g, s'.serverGrants.get? fp = some g →
      ∃ g', s.serverGrants.get? fp = some g' ∧ g'.serverEncPubHex = g.serverEncPubHex) : KeysUnique K s' := by
  refine ⟨?_, ?_, ?_, ?_, ?_⟩
  · rw [henc]; exact h.enc.map f (fun d => (hf d).1) hcurrent
  · rw [hsig]; exact h.sig.map f (fun d => (hf d).2) hcurrent
  · intro i d hd
    rw [hcurrent] at hd
    obtain ⟨e, he, rfl⟩ := Option.map_eq_some_iff.mp hd
    rw [hnamed, (hf e).1]
    exact h.unnamed i e he
  · intro fp g hg
    obtain ⟨g', hg', heq⟩ := hgrants fp g hg
    rw [hnamed, ← heq]
    exact h.named fp g' hg'
  · intro i d hd
    rw [hcurrent] at hd
    obtain ⟨e, he, rfl⟩ := Option.map_eq_some_iff.mp hd
    rw [(hf e).1, (hf e).2]
    exact h.registered i e he

theorem keysUnique_grant (h : KeysUnique K s) (p : GrantServerPayload) (seq : Nat)
    (hkey : s.memberEncPubs.get? p.serverEncPubHex = none) : KeysUnique K (applyGrantServer p s seq) := by
  refine ⟨h.enc, h.sig, ?_, ?_, h.registered⟩
  · intro i d hd
    have hne := h.enc.not_used hkey hd
    exact (OrderedMap.get?_set_ne _ _ hne).trans (h.unnamed i d hd)
  · intro fp g hg
    have hg := (OrderedMap.get?_set _ _ _ _).symm.trans hg
    simp only [applyGrantServer, OrderedMap.get?_set]
    split_ifs at hg with hfp
    · cases hg; exact ⟨_, if_pos rfl⟩
    · split_ifs
      · exact ⟨_, rfl⟩
      · exact h.named fp g hg

/-- A place the new key's fingerprint points to is free: another pair there would collide. -/
theorem currentDevice_fresh (hk : WellKeyed crypto s) (h : KeysUnique K s)
    (hK : ∀ k ∈ K, ∀ k' ∈ K, userFingerprintHex crypto k.1 k.2 = userFingerprintHex crypto k'.1 k'.2 → k = k')
    {enc sig : JsString} (hkeys : registersTakenKey s enc sig = false) (hmem : (enc, sig) ∈ K) (u : UserId) :
    currentDevice s (u, userFingerprintHex crypto enc sig) = none := by
  by_contra hne
  obtain ⟨d, hd⟩ := Option.ne_none_iff_exists'.mp hne
  obtain ⟨x, hx⟩ := currentDevice_eq_some.mp hd
  obtain ⟨hx, hdx⟩ := deviceOf_eq_some.mp hx
  have hfp := (hk.device u x _ d hx hdx).2
  have heq := hK _ (h.registered _ d hd) _ hmem hfp
  exact h.enc.not_used (registersTakenKey_eq_false.mp hkeys).1 hd (congrArg Prod.fst heq)

end Steps

theorem keysUnique_step {crypto : Crypto} {K : List (JsString × JsString)}
    (hK : ∀ k ∈ K, ∀ k' ∈ K, userFingerprintHex crypto k.1 k.2 = userFingerprintHex crypto k'.1 k'.2 → k = k')
    {s s' : MutableChainState} (hk : WellKeyed crypto s) (h : KeysUnique K s) {op : ProposableOperation}
    (hop : ∀ k, registeredKey op = some k → k ∈ K) (hstep : KeyStep crypto op s s') : KeysUnique K s' := by
  cases hstep with
  | enters u d hfp hregistered hkeys hcurrent henc hsig hnamed hgrants =>
    have hmem := hop _ hregistered
    refine keysUnique_add h (u, d.keyFingerprintHex) d ?_ hkeys hmem hcurrent henc hsig hnamed hgrants
    rw [hfp]
    exact currentDevice_fresh hk h hK hkeys hmem u
  | leaves gone hdec hcurrent removed hremoved henc hsig hnamed hgrants =>
    exact keysUnique_remove h gone hcurrent removed hremoved henc hsig hnamed hgrants
  | rewrites f hf hcurrent henc hsig hnamed hgrants => exact keysUnique_map h f hf hcurrent henc hsig hnamed hgrants
  | names p seq hgrant hok hs =>
    rw [hs]
    exact keysUnique_grant h p seq hok.key

theorem runs_keysUnique {crypto : Crypto} {history : Option ChainHistoryBuilder} {entries : List Json}
    {loop : LoopState} (hrun : Runs crypto history entries loop) {all : List Json} (hsub : entries <+: all)
    (hdistinct : FingerprintsDistinct crypto all) : KeysUnique (registeredKeys all) loop.state := by
  refine state_induction hrun (I := fun _ s => KeysUnique (registeredKeys all) s)
    (Q := fun op => ∀ k, registeredKey op = some k → k ∈ registeredKeys all) ?_ (keysUnique_initial _)
    (fun _ _ _ _ _ _ _ h => h) (fun _ _ _ h => ⟨h.enc, h.sig, h.unnamed, h.named, h.registered⟩)
    (fun p actor hQ hfp =>
      keysUnique_step hdistinct (wellKeyed_initial crypto) (keysUnique_initial _) hQ (keyStep_genesis hfp))
    (fun n s op u fp m d hQ hk h auth => keysUnique_step hdistinct hk h hQ (keyStep_apply hk auth _))
  intro op hop k hk
  obtain ⟨tail, rfl⟩ := hsub
  exact mem_registeredKeys (by simp only [operationsIn, List.flatMap_append, List.mem_append] at hop ⊢; exact Or.inl hop) hk

/-- Key uniqueness at every prefix of an accepted list. -/
theorem chain_key_uniqueness (crypto : Crypto) (entries : List Json) (st : ChainState)
    (h : verifyChain crypto entries = .ok st) (hdistinct : FingerprintsDistinct crypto entries) (n : Nat) :
    ∃ s, stateAfter crypto (entries.take n) = some s ∧
      (∀ place place' d d', currentDevice s place = some d → currentDevice s place' = some d' →
        d.encPubHex = d'.encPubHex ∨ d.sigPubHex = d'.sigPubHex → place = place') ∧
      (∀ place d, currentDevice s place = some d → s.namedServerKeys.has d.encPubHex = false) ∧
      (∀ fp g, s.serverGrants.get? fp = some g → s.namedServerKeys.has g.serverEncPubHex = true) ∧
      (∀ k, s.memberEncPubs.has k = true ↔ ∃ place d, currentDevice s place = some d ∧ d.encPubHex = k) ∧
      ∀ k, s.memberSigPubs.has k = true ↔ ∃ place d, currentDevice s place = some d ∧ d.sigPubHex = k := by
  obtain ⟨s, hs⟩ := stateAfter_take h n
  obtain ⟨loop, hrun, rfl⟩ := stateAfter_eq_some.mp hs
  have hkeys := runs_keysUnique hrun (List.take_prefix n entries) hdistinct
  refine ⟨loop.state, hs, ?_, ?_, ?_, hkeys.enc.has_iff, hkeys.sig.has_iff⟩
  · rintro place place' d d' hd hd' (heq | heq)
    · exact hkeys.enc.unique _ _ _ _ hd hd' heq
    · exact hkeys.sig.unique _ _ _ _ hd hd' heq
  · exact fun place d hd => (OrderedMap.has_eq_false_iff _ _).mpr (hkeys.unnamed place d hd)
  · exact fun fp g hg => (OrderedMap.has_iff _ _).mpr (hkeys.named fp g hg)

set_option maxRecDepth 100000 in
theorem exampleChain_distinct : FingerprintsDistinct exampleCrypto exampleChain := by
  rw [exampleCrypto_eq []]
  decide +kernel

theorem chain_key_uniqueness_example : ∃ s, stateAfter exampleCrypto (exampleChain.take 8) = some s ∧
    ∀ place place' d d', currentDevice s place = some d → currentDevice s place' = some d' →
      d.encPubHex = d'.encPubHex ∨ d.sigPubHex = d'.sigPubHex → place = place' := by
  obtain ⟨st, h⟩ := exampleChain_verified
  obtain ⟨s, hs, hunique, -⟩ := chain_key_uniqueness _ _ st h exampleChain_distinct 8
  exact ⟨s, hs, hunique⟩

end Maruhi.Chain
