import Maruhi.Chain.Keys

/-!
# The encryption keys in use

What holds of the current encryption keys whether or not fingerprints collide: a device may then take another's
place, and its key stays in the index.
-/

namespace Maruhi.Chain

/-- The encryption key that an operation brings in. -/
def heldKey : ProposableOperation → Option JsString
  | .genesis p => some p.encPubHex
  | .addMember p => some p.encPubHex
  | .addDevice p => some p.encPubHex
  | .grantServer p => some p.serverEncPubHex
  | _ => none

def heldKeys (entries : List Json) : List JsString := (operationsIn entries).filterMap heldKey

theorem heldKey_of_registered {op : ProposableOperation} {k : JsString × JsString} (h : registeredKey op = some k) :
    heldKey op = some k.1 := by
  cases op <;> cases h <;> rfl

theorem heldKeys_length (entries : List Json) : (heldKeys entries).length ≤ entries.length := by
  have hone : ∀ j, (operationsOf j).length ≤ 1 := by
    intro j
    unfold operationsOf
    split
    · rename_i entry _
      cases entry.operation <;> simp [carried]
    · exact Nat.zero_le 1
  refine (List.length_filterMap_le _ _).trans ?_
  unfold operationsIn
  induction entries with
  | nil => exact Nat.zero_le 0
  | cons j rest ih =>
    have := hone j
    rw [List.flatMap_cons, List.length_append, List.length_cons]
    omega

theorem heldKey_length {entries : List Json} {k : JsString} (h : k ∈ heldKeys entries) : k.length = 64 := by
  obtain ⟨op, hop, hk⟩ := List.mem_filterMap.mp h
  have hshaped := operationsIn_shaped op hop
  have hhex : isHexText 32 k = true := by
    cases op with
    | genesis p => cases hk; exact KeysShaped.enc hshaped
    | addMember p => cases hk; exact KeysShaped.enc hshaped.2.1
    | addDevice p => cases hk; exact KeysShaped.enc hshaped.1
    | grantServer p => cases hk; exact hshaped.1
    | _ => cases hk
  simp only [isHexText, Bool.and_eq_true, decide_eq_true_eq] at hhex
  exact hhex.1

/-- `K` holds every encryption key the list brings in. -/
structure KeysHeld (crypto : Crypto) (K : List JsString) (s : MutableChainState) : Prop where
  enc : Covered (·.encPubHex) s.memberEncPubs (currentDevice s)
  unnamed : ∀ place d, currentDevice s place = some d → s.namedServerKeys.get? d.encPubHex = none
  named : ∀ fp g, s.serverGrants.get? fp = some g → ∃ key, s.namedServerKeys.get? g.serverEncPubHex = some key
  fingerprint : ∀ fp g, s.serverGrants.get? fp = some g → serverFingerprintHex crypto g.serverEncPubHex = fp
  device : ∀ place d, currentDevice s place = some d → d.encPubHex ∈ K
  grant : ∀ fp g, s.serverGrants.get? fp = some g → g.serverEncPubHex ∈ K

section Steps
variable {crypto : Crypto} {K : List JsString} {s s' : MutableChainState} {op : ProposableOperation}

theorem keysHeld_initial (crypto : Crypto) (K : List JsString) : KeysHeld crypto K .initial :=
  ⟨Covered.empty _, fun _ _ h => (nomatch h), fun _ _ h => (nomatch h), fun _ _ h => (nomatch h),
    fun _ _ h => (nomatch h), fun _ _ h => (nomatch h)⟩

theorem KeysHeld.fewer (h : KeysHeld crypto K s) (henc : Covered (·.encPubHex) s'.memberEncPubs (currentDevice s'))
    (hdevice : ∀ place d, currentDevice s' place = some d → ∃ d', currentDevice s place = some d' ∧ d'.encPubHex = d.encPubHex)
    (hnamed : s'.namedServerKeys = s.namedServerKeys)
    (hgrants : ∀ fp g, s'.serverGrants.get? fp = some g →
      ∃ g', s.serverGrants.get? fp = some g' ∧ g'.serverEncPubHex = g.serverEncPubHex) : KeysHeld crypto K s' where
  enc := henc
  unnamed place d hd := by
    obtain ⟨d', hd', hkey⟩ := hdevice place d hd
    rw [hnamed, ← hkey]
    exact h.unnamed place d' hd'
  named fp g hg := by
    obtain ⟨g', hg', hkey⟩ := hgrants fp g hg
    rw [hnamed, ← hkey]
    exact h.named fp g' hg'
  fingerprint fp g hg := by
    obtain ⟨g', hg', hkey⟩ := hgrants fp g hg
    rw [← hkey]
    exact h.fingerprint fp g' hg'
  device place d hd := by
    obtain ⟨d', hd', hkey⟩ := hdevice place d hd
    rw [← hkey]
    exact h.device place d' hd'
  grant fp g hg := by
    obtain ⟨g', hg', hkey⟩ := hgrants fp g hg
    rw [← hkey]
    exact h.grant fp g' hg'

theorem keysHeld_enters (h : KeysHeld crypto K s) {place : UserId × KeyFingerprintHex} {d : ChainDevice}
    (hK : d.encPubHex ∈ K) (hkeys : registersTakenKey s d.encPubHex d.sigPubHex = false)
    (hcurrent : ∀ i, currentDevice s' i = if i = place then some d else currentDevice s i)
    (henc : s'.memberEncPubs = s.memberEncPubs.set d.encPubHex ())
    (hnamed : s'.namedServerKeys = s.namedServerKeys) (hgrants : s'.serverGrants = s.serverGrants) :
    KeysHeld crypto K s' := by
  obtain ⟨hfreeEnc, -, hfreeNamed⟩ := registersTakenKey_eq_false.mp hkeys
  refine ⟨?_, fun i e he => ?_, ?_, ?_, fun i e he => ?_, ?_⟩
  · rw [henc]
    exact h.enc.put hfreeEnc hcurrent
  · rw [hcurrent] at he
    rw [hnamed]
    split_ifs at he
    · cases he
      exact hfreeNamed
    · exact h.unnamed i e he
  · rw [hnamed, hgrants]
    exact h.named
  · rw [hgrants]
    exact h.fingerprint
  · rw [hcurrent] at he
    split_ifs at he
    · cases he
      exact hK
    · exact h.device i e he
  · rw [hgrants]
    exact h.grant

theorem keysHeld_grant (h : KeysHeld crypto K s) {p : GrantServerPayload} (seq : Nat) (hok : GrantServerOk crypto p s)
    (hK : p.serverEncPubHex ∈ K) : KeysHeld crypto K (applyGrantServer p s seq) := by
  have hget : ∀ fp g, (applyGrantServer p s seq).serverGrants.get? fp = some g →
      fp = p.serverKeyFingerprintHex ∧ g.serverEncPubHex = p.serverEncPubHex ∨ s.serverGrants.get? fp = some g := by
    intro fp g hg
    have hg := (OrderedMap.get?_set _ _ _ _).symm.trans hg
    split_ifs at hg with hfp
    · cases hg
      exact .inl ⟨hfp, rfl⟩
    · exact .inr hg
  refine ⟨h.enc, fun i d hd => ?_, fun fp g hg => ?_, fun fp g hg => ?_, h.device, fun fp g hg => ?_⟩
  · exact (OrderedMap.get?_set_ne _ _ (h.enc.not_used hok.key hd)).trans (h.unnamed i d hd)
  · simp only [applyGrantServer, OrderedMap.get?_set]
    split_ifs with hkey
    · exact ⟨_, rfl⟩
    · rcases hget fp g hg with ⟨-, heq⟩ | hold
      · exact absurd heq hkey
      · exact h.named fp g hold
  · rcases hget fp g hg with ⟨rfl, heq⟩ | hold
    · rw [heq]
      exact hok.fingerprint
    · exact h.fingerprint fp g hold
  · rcases hget fp g hg with ⟨-, heq⟩ | hold
    · rw [heq]
      exact hK
    · exact h.grant fp g hold

theorem keysHeld_step (h : KeysHeld crypto K s) (hop : ∀ k, heldKey op = some k → k ∈ K) (hstep : KeyStep crypto op s s') :
    KeysHeld crypto K s' := by
  cases hstep with
  | enters u d hfp hregistered hkeys hcurrent henc hsig hnamed hgrants =>
    exact keysHeld_enters h (hop _ (heldKey_of_registered hregistered)) hkeys hcurrent henc hnamed hgrants
  | leaves gone hdec hcurrent removed hremoved henc hsig hnamed hgrants =>
    refine h.fewer ?_ (fun place d hd => ?_) hnamed fun fp g hg => ⟨g, hgrants ▸ hg, rfl⟩
    · rw [henc]
      refine h.enc.remove gone hcurrent fun k hk => ?_
      obtain ⟨d, hd, rfl⟩ := List.mem_map.mp hk
      obtain ⟨i, hi, hx⟩ := (hremoved d).mp hd
      exact ⟨i, d, hi, hx, rfl⟩
    · rw [hcurrent] at hd
      split_ifs at hd
      exact ⟨d, hd, rfl⟩
  | rewrites f hf hcurrent henc hsig hnamed hgrants =>
    refine h.fewer ?_ (fun place d hd => ?_) hnamed hgrants
    · rw [henc]
      exact h.enc.map f (fun d => (hf d).1) hcurrent
    · rw [hcurrent] at hd
      obtain ⟨d', hd', rfl⟩ := Option.map_eq_some_iff.mp hd
      exact ⟨d', hd', (hf d').1.symm⟩
  | names p seq hgrant hok hs =>
    subst hgrant
    rw [hs]
    exact keysHeld_grant h seq hok (hop _ rfl)

end Steps

theorem runs_keysHeld {crypto : Crypto} {history : Option ChainHistoryBuilder} {entries : List Json} {loop : LoopState}
    (hrun : Runs crypto history entries loop) : KeysHeld crypto (heldKeys entries) loop.state := by
  refine state_induction hrun (I := fun _ s => KeysHeld crypto (heldKeys entries) s)
    (Q := fun op => ∀ k, heldKey op = some k → k ∈ heldKeys entries)
    (fun op hop k hk => List.mem_filterMap.mpr ⟨op, hop, hk⟩) (keysHeld_initial _ _)
    (fun _ _ _ _ _ _ _ h => h) (fun _ _ _ h => ⟨h.enc, h.unnamed, h.named, h.fingerprint, h.device, h.grant⟩)
    (fun p actor hQ hfp => keysHeld_step (keysHeld_initial _ _) hQ (keyStep_genesis hfp))
    (fun n s op u fp m d hQ hk h auth => keysHeld_step h hQ (keyStep_apply hk auth _))

theorem keysHeld_of_stateAfter {crypto : Crypto} {entries : List Json} {s : MutableChainState}
    (h : stateAfter crypto entries = some s) : KeysHeld crypto (heldKeys entries) s := by
  obtain ⟨loop, hrun, rfl⟩ := stateAfter_eq_some.mp h
  exact runs_keysHeld hrun

end Maruhi.Chain
