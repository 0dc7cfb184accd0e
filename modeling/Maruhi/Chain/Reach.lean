import Maruhi.Chain.Step
import Mathlib.Data.Option.Basic

/-!
# Runs of the verification loop

What one accepted turn of the loop establishes, the states the loop passes through, and the
induction rule for properties of the derived state.
-/

open Run Text Utf8

namespace Maruhi.Chain

/-! ## What the loop reads -/

theorem payloadShapes_opName : ∀ e ∈ payloadShapes, ∀ payload operation,
    e.2 payload = some operation → e.1 = proposableOpName operation := by
  simp only [payloadShapes, List.forall_mem_cons, Option.map_eq_some_iff, forall_exists_index, and_imp,
    forall_apply_eq_imp_iff₂, proposableOpName, List.not_mem_nil, false_implies, implies_true, and_self]

theorem proposableShape_opName {op : JsString} {payload : Json} {operation : ProposableOperation}
    (h : proposableShape op payload = some operation) : op = proposableOpName operation := by
  simp only [proposableShape, Option.bind_eq_bind, Option.bind_eq_some_iff] at h
  obtain ⟨shape, hshape, hop⟩ := h
  obtain ⟨l₁, l₂, htable, -⟩ := List.lookup_eq_some_iff.mp hshape
  exact payloadShapes_opName (op, shape) (by rw [htable]; simp) payload operation hop

theorem operationShapeOk_opName {op payload : Json} {operation : ChainOperation}
    (h : operationShapeOk op payload = some operation) : op.str? = some (opName operation) := by
  simp only [operationShapeOk, Option.bind_eq_bind, Option.bind_eq_some_iff] at h
  obtain ⟨s, hs, -, -, h⟩ := h
  rw [hs]
  split_ifs at h with h1 h2 h3
  all_goals obtain ⟨p, hp, rfl⟩ := Option.map_eq_some_iff.mp h
  · rw [h1]; rfl
  · rw [h2]; rfl
  · rw [h3]; rfl
  · rw [proposableShape_opName hp]; rfl

def isGenesis : ChainOperation → Bool
  | .direct (.genesis _) => true
  | _ => false

theorem opName_genesis_iff (operation : ChainOperation) :
    opName operation = lit "genesis" ↔ isGenesis operation = true := by
  cases operation with
  | direct op => cases op <;> simp only [opName, proposableOpName, isGenesis] <;> decide
  | propose p => simp only [opName, isGenesis]; decide
  | approve h => simp only [opName, isGenesis]; decide
  | withdraw h => simp only [opName, isGenesis]; decide

/-- The fields of an entry that the loop compares with its own variables. -/
structure Framed (entry : ChainEntry) (seq : Nat) (prevHash : JsString) : Prop where
  suite_eq : entry.suite = suiteId
  seq_eq : entry.seq = seq
  prevHash_eq : entry.prevHashHex = prevHash
  genesis_iff : isGenesis entry.operation = true ↔ seq = 1

theorem checkPayloadShape_fields {j : Json} {entry : ChainEntry} (h : checkPayloadShape j = some entry) :
    (j.get "suite").str? = some entry.suite ∧ (j.get "seq").nat? = some entry.seq ∧
      (j.get "prevHashHex").str? = some entry.prevHashHex ∧
      operationShapeOk (j.get "op") (j.get "payload") = some entry.operation ∧
      hexOfLength? signatureBytes (j.get "signatureHex") = some entry.signatureHex := by
  simp only [checkPayloadShape, Option.bind_eq_bind, Option.bind_eq_some_iff, Option.pure_def,
    Option.some.injEq] at h
  obtain ⟨t, -, actor, -, sig, hsig, op, hop, suite, hsuite, seq, hseq, prev, hprev, rfl⟩ := h
  exact ⟨hsuite, hseq, hprev, hop, hsig⟩

theorem framed_of_checks {j : Json} {entry : ChainEntry} {seq : Nat} {prevHash : JsString}
    (hframing : checkFraming j seq prevHash = none) (hshape : checkPayloadShape j = some entry) :
    Framed entry seq prevHash := by
  obtain ⟨hsuite, hseq, hprev, hop, -⟩ := checkPayloadShape_fields hshape
  unfold checkFraming at hframing
  rw [hsuite, hseq, hprev, operationShapeOk_opName hop] at hframing
  split_ifs at hframing with h1 h2 h3 h4
  refine ⟨by simpa using h1, by simpa using h2, by simpa using h4, ?_⟩
  have h3 : decide (seq = 1) = decide (some (opName entry.operation) = some (lit "genesis")) := by
    simpa only [ne_eq, not_not] using h3
  rw [decide_eq_decide, Option.some.injEq, opName_genesis_iff] at h3
  exact h3.symm

theorem checkFraming_of_framed {j : Json} {entry : ChainEntry} {seq : Nat} {prevHash : JsString}
    (hshape : checkPayloadShape j = some entry) (h : Framed entry seq prevHash) :
    checkFraming j seq prevHash = none := by
  obtain ⟨hsuite, hseq, hprev, hop, -⟩ := checkPayloadShape_fields hshape
  have hgenesis : decide (seq = 1) = decide (some (opName entry.operation) = some (lit "genesis")) := by
    rw [decide_eq_decide, Option.some.injEq, opName_genesis_iff, h.genesis_iff]
  unfold checkFraming
  rw [hsuite, hseq, hprev, operationShapeOk_opName hop, h.suite_eq, h.seq_eq, h.prevHash_eq, hgenesis]
  simp

/-! ## One turn of the loop -/

structure AcceptedStep (crypto : Crypto) (loop : LoopState) (j : Json) (loop' : LoopState) (entry : ChainEntry)
    (hash : JsString) (applied : Option AppliedOperation) : Prop where
  framing : checkFraming j (loop.seq + 1) loop.prevHash = none
  shape : checkPayloadShape j = some entry
  signature : ∃ sigPubHex, resolveActorSigPub crypto entry loop.state = .ok sigPubHex ∧
    verifyEntrySignature crypto entry sigPubHex = true
  hash_eq : computeChainEntryHash crypto entry = some hash
  evaluated : evaluateEntry crypto entry hash loop.state = .ok (loop'.state, applied)
  seq_eq : loop'.seq = loop.seq + 1
  prevHash_eq : loop'.prevHash = hash
  history_eq : loop'.history = loop.history.map fun history =>
    (match applied with
      | none => history
      | some applied => recordHistory history applied (loop.seq + 1) loop'.state).recordEntryHash hash

theorem AcceptedStep.framed {crypto : Crypto} {loop loop' : LoopState} {j : Json} {entry : ChainEntry}
    {hash : JsString} {applied : Option AppliedOperation}
    (h : AcceptedStep crypto loop j loop' entry hash applied) : Framed entry (loop.seq + 1) loop.prevHash :=
  framed_of_checks h.framing h.shape

theorem AcceptedStep.transition {crypto : Crypto} {loop loop' : LoopState} {j : Json} {entry : ChainEntry}
    {hash : JsString} {applied : Option AppliedOperation}
    (h : AcceptedStep crypto loop j loop' entry hash applied) :
    Transition crypto loop.state entry hash loop'.state applied := evaluateEntry_ok h.evaluated

theorem checkEntryBeforeApply_ok {crypto : Crypto} {j : Json} {seq : Nat} {prevHash : JsString}
    {s : MutableChainState} {entry : ChainEntry}
    (h : checkEntryBeforeApply crypto j seq prevHash s = .ok entry) :
    checkFraming j seq prevHash = none ∧ checkPayloadShape j = some entry ∧
      ∃ sigPubHex, resolveActorSigPub crypto entry s = .ok sigPubHex ∧
        verifyEntrySignature crypto entry sigPubHex = true := by
  unfold checkEntryBeforeApply at h
  split_ifs at h
  split at h
  · cases h
  · rename_i hframing
    split at h
    · cases h
    · rename_i e hshape
      split at h
      · cases h
      · rename_i sigPubHex hsig
        split_ifs at h with hverify
        cases h
        exact ⟨hframing, hshape, sigPubHex, hsig, hverify⟩

theorem verifyEntry_ok {crypto : Crypto} {loop loop' : LoopState} {j : Json}
    (h : verifyEntry crypto loop j = .ok loop') :
    ∃ entry hash applied, AcceptedStep crypto loop j loop' entry hash applied := by
  unfold verifyEntry at h
  dsimp only at h
  split at h
  · cases h
  · rename_i entry hcheck
    split at h
    · cases h
    · rename_i hash hhash
      split at h
      · cases h
      · rename_i s' applied heval
        cases h
        obtain ⟨hframing, hshape, hsig⟩ := checkEntryBeforeApply_ok hcheck
        exact ⟨entry, hash, applied, hframing, hshape, hsig, hhash, heval, rfl, rfl, rfl⟩

theorem AcceptedStep.verifyEntry_eq {crypto : Crypto} {loop loop' : LoopState} {j : Json}
    {entry : ChainEntry} {hash : JsString} {applied : Option AppliedOperation} (hrecord : j.isRecord = true)
    (h : AcceptedStep crypto loop j loop' entry hash applied) : verifyEntry crypto loop j = .ok loop' := by
  obtain ⟨hframing, hshape, ⟨sigPubHex, hresolve, hverify⟩, hhash, hevaluated, hseq, hprev, hhistory⟩ := h
  obtain ⟨state', history', prevHash', seq'⟩ := loop'
  dsimp only at hseq hprev hhistory hevaluated
  subst hseq hprev hhistory
  unfold verifyEntry checkEntryBeforeApply
  cases applied <;>
    simp only [hrecord, hframing, hshape, hresolve, hverify, hhash, hevaluated, Bool.not_true, Bool.false_eq_true,
      if_false, if_true]

/-! ## The verifier never throws -/

theorem hexOfLength_eq_some {bytes : Nat} {value : Json} {s : JsString} (h : hexOfLength? bytes value = some s) :
    s.length = bytes * 2 ∧ ∃ decoded, decodeHex s = some decoded ∧ decoded.length = bytes := by
  simp only [hexOfLength?, Option.filter_eq_some_iff] at h
  have hs := h.2
  simp only [isHexText, Bool.and_eq_true, decide_eq_true_eq] at hs
  refine ⟨hs.1, ?_⟩
  cases hd : decodeHex s with
  | none => simp [hd] at hs
  | some decoded => exact ⟨decoded, rfl, by simpa [hd] using hs.2⟩

theorem canonicalChainEntryBytes_isSome {entry : ChainEntry} {signed : Bytes}
    (hsigned : canonicalChainSignedBytes entry = some signed)
    (hlength : entry.signatureHex.length = signatureBytes * 2)
    (hascii : ∀ u ∈ entry.signatureHex, u.toNat < 128) :
    (canonicalChainEntryBytes entry).isSome = true := by
  simp only [canonicalChainSignedBytes, Option.bind_eq_bind, Option.bind_eq_some_iff] at hsigned
  obtain ⟨payload, hpayload, hfields⟩ := hsigned
  obtain ⟨bodies, hbodies, -⟩ := Option.map_eq_some_iff.mp hfields
  have hsig : fieldOk (.str entry.signatureHex) = some (utf8Encode entry.signatureHex) := by
    have hlen : (utf8Encode entry.signatureHex).length = 128 := by
      rw [length_utf8Encode_ascii _ hascii, hlength]; rfl
    simp [fieldOk, fieldBody, hlen]
  simp only [canonicalChainEntryBytes, hpayload, Option.bind_eq_bind, Option.bind_some, encodeLengthPrefixed,
    List.mapM_append, hbodies, List.mapM_cons, List.mapM_nil, hsig, Option.pure_def, Option.map_some,
    Option.isSome_some]

theorem verifyEntry_ne_thrown (crypto : Crypto) (loop : LoopState) (j : Json) :
    verifyEntry crypto loop j ≠ .error .thrown := by
  intro h
  unfold verifyEntry at h
  dsimp only at h
  split at h
  · cases h
  · rename_i entry hcheck
    obtain ⟨-, hshape, sigPubHex, -, hverify⟩ := checkEntryBeforeApply_ok hcheck
    obtain ⟨-, -, -, -, hsig⟩ := checkPayloadShape_fields hshape
    obtain ⟨hlen, decoded, hdecoded, -⟩ := hexOfLength_eq_some hsig
    unfold verifyEntrySignature at hverify
    split at hverify
    · split_ifs at hverify
      split at hverify
      · cases hverify
      · rename_i signed hsigned
        have hsome := canonicalChainEntryBytes_isSome hsigned hlen (decodeHex_ascii _ _ hdecoded)
        obtain ⟨bytes, hbytes⟩ := Option.isSome_iff_exists.mp hsome
        have hhash : computeChainEntryHash crypto entry = some (encodeHex (crypto.sha256 bytes)) := by
          rw [computeChainEntryHash, hbytes]; rfl
        rw [hhash] at h
        dsimp only at h
        split at h <;> cases h
    · cases hverify

theorem verifyChainCore_ne_thrown (crypto : Crypto) (entries : List Json) (history : Option ChainHistoryBuilder) :
    verifyChainCore crypto entries history ≠ .error .thrown := by
  have hloop : ∀ (l : List Json) (loop : LoopState), l.foldlM (verifyEntry crypto) loop ≠ .error .thrown := by
    intro l
    induction l with
    | nil => intro loop h; cases h
    | cons j rest ih =>
      intro loop h
      rw [List.foldlM_cons] at h
      cases hj : verifyEntry crypto loop j with
      | error e => rw [hj] at h; exact verifyEntry_ne_thrown crypto loop j (hj.trans h)
      | ok loop' => rw [hj] at h; exact ih loop' h
  unfold verifyChainCore
  split_ifs
  · simp
  · intro h
    cases hfold : entries.foldlM (verifyEntry crypto) (.initial history) with
    | error e => rw [hfold] at h; cases h; exact hloop _ _ hfold
    | ok loop => rw [hfold] at h; cases h

end Maruhi.Chain
