import Maruhi.Checkpoint.Baseline
import Maruhi.Checkpoint.Digest

/-!
# Rule 2: no value below the checkpoint (`checkpoint-integrity.ts`)

A response is judged against the enumeration it carries, and the enumeration against the chain.
-/

open Text Utf8

namespace Maruhi.Checkpoint
open Chain

structure CheckpointCheckedValue where
  variableId : JsString
  version : Nat
  epoch : Nat
  signedBytesHashHex : JsString
  deriving DecidableEq, Repr

/-- The enumeration of a response. Its position is the server's word. -/
structure CheckpointValueSnapshot where
  chainSeq : Nat
  entryHashHex : JsString
  entries : List EnvValuesDigestEntry
  deriving DecidableEq, Repr

/-- The texts of a refusal, by what they name. -/
inductive IntegrityRefusal
  | entryHashMismatch (chainSeq : Nat)
  | noCoveringCheckpoint (chainSeq : Nat) (environmentId : EnvironmentId)
  | newerCheckpoint (chainSeq : Nat) (environmentId : EnvironmentId) (baselineSeq : Nat)
  | stalePosition (chainSeq : Nat) (environmentId : EnvironmentId) (baselineSeq : Nat)
  | checkpointAfterView (environmentId : EnvironmentId) (baselineSeq : Nat)
  | snapshotOmitted (environmentId : EnvironmentId) (baselineSeq : Nat)
  | digestMismatch (environmentId : EnvironmentId) (baselineSeq : Nat)
  | backdatedCreation (variableId : JsString) (epoch baselineEpoch : Nat)
  | valueRollback (variableId : JsString) (version snapshotVersion baselineSeq : Nat)
  | valueEquivocation (variableId : JsString) (version : Nat)
  | forwardInjection (variableId : JsString) (epoch baselineEpoch : Nat)
  | unexplainedOmission (variableId : JsString) (baselineSeq : Nat)
  deriving DecidableEq, Repr

inductive CheckpointIntegrityOutcome
  | ok
  | future
  | rejected (message : IntegrityRefusal) (evidence : Bool)
  deriving DecidableEq, Repr

/-- An exception out of the digest. -/
inductive CryptoContractViolationError
  | mk
  deriving DecidableEq, Repr

def rejected (message : IntegrityRefusal) : CheckpointIntegrityOutcome := .rejected message true

def retriable (message : IntegrityRefusal) : CheckpointIntegrityOutcome := .rejected message false

def noBaselineOutcome (history : ChainHistoryIndex) (environmentId : EnvironmentId) (snapshot : CheckpointValueSnapshot) :
    CheckpointIntegrityOutcome :=
  if history.headSeq < snapshot.chainSeq then .future
  else if history.entryHashAt snapshot.chainSeq ≠ some snapshot.entryHashHex then
    rejected (.entryHashMismatch snapshot.chainSeq)
  else rejected (.noCoveringCheckpoint snapshot.chainSeq environmentId)

/-- None where the declared position is the baseline's. -/
def locatorOutcome (history : ChainHistoryIndex) (environmentId : EnvironmentId) (snapshot : CheckpointValueSnapshot)
    (baseline : EnvironmentCheckpointState) (fetchedAtHeadSeq : Nat) : Option CheckpointIntegrityOutcome :=
  if history.headSeq < snapshot.chainSeq then some .future
  else if history.entryHashAt snapshot.chainSeq ≠ some snapshot.entryHashHex then
    some (rejected (.entryHashMismatch snapshot.chainSeq))
  else if snapshot.chainSeq = baseline.seq then none
  else if snapshot.chainSeq < baseline.seq ∧ fetchedAtHeadSeq < baseline.seq then
    some (retriable (.newerCheckpoint snapshot.chainSeq environmentId baseline.seq))
  else some (rejected (.stalePosition snapshot.chainSeq environmentId baseline.seq))

def servedValueReason (baseline : EnvironmentCheckpointState) (value : CheckpointCheckedValue) :
    Option EnvValuesDigestEntry → Option IntegrityRefusal
  | none =>
    if value.epoch < baseline.epoch then some (.backdatedCreation value.variableId value.epoch baseline.epoch) else none
  | some entry =>
    if value.version < entry.version then
      some (.valueRollback value.variableId value.version entry.version baseline.seq)
    else if value.version = entry.version ∧ value.signedBytesHashHex ≠ entry.valueSigHashHex then
      some (.valueEquivocation value.variableId value.version)
    else if entry.version < value.version ∧ value.epoch < baseline.epoch then
      some (.forwardInjection value.variableId value.epoch baseline.epoch)
    else none

def omissionReason (snapshot : CheckpointValueSnapshot) (servedIds tombstoneIds : List JsString) (baselineSeq : Nat) :
    Option IntegrityRefusal :=
  snapshot.entries.findSome? fun entry =>
    if !servedIds.contains entry.variableId && !tombstoneIds.contains entry.variableId then
      some (.unexplainedOmission entry.variableId baselineSeq)
    else none

/-- The entry that `new Map(values.map(…))` holds under an id: the last of them. -/
def snapshotById (snapshot : CheckpointValueSnapshot) (variableId : JsString) : Option EnvValuesDigestEntry :=
  (OrderedMap.ofEntries (snapshot.entries.map fun entry => (entry.variableId, entry))).get? variableId

structure IntegrityInput where
  history : ChainHistoryIndex
  environmentId : EnvironmentId
  snapshot : Option CheckpointValueSnapshot
  served : List CheckpointCheckedValue
  tombstoneIds : List JsString
  fetchedAtHeadSeq : Nat

/-- What follows once the enumeration is the notarized one. -/
def servedOutcome (input : IntegrityInput) (snapshot : CheckpointValueSnapshot) (baseline : EnvironmentCheckpointState) :
    CheckpointIntegrityOutcome :=
  match input.served.findSome? fun value => servedValueReason baseline value (snapshotById snapshot value.variableId) with
  | some reason => rejected reason
  | none =>
    match omissionReason snapshot (input.served.map (·.variableId)) input.tombstoneIds baseline.seq with
    | some omission => rejected omission
    | none => .ok

def checkCheckpointIntegrity (crypto : Crypto) (input : IntegrityInput) :
    Except CryptoContractViolationError CheckpointIntegrityOutcome :=
  match input.snapshot, input.history.latestCheckpointFor input.environmentId with
  | none, none => .ok .ok
  | none, some baseline =>
    if input.fetchedAtHeadSeq < baseline.seq then
      .ok (retriable (.checkpointAfterView input.environmentId baseline.seq))
    else .ok (rejected (.snapshotOmitted input.environmentId baseline.seq))
  | some snapshot, none => .ok (noBaselineOutcome input.history input.environmentId snapshot)
  | some snapshot, some baseline =>
    match locatorOutcome input.history input.environmentId snapshot baseline input.fetchedAtHeadSeq with
    | some locator => .ok locator
    | none =>
      match computeEnvValuesDigest crypto suiteId snapshot.entries with
      | .error .thrown => .error .mk
      | .error (.invalidInput _) => .ok (rejected (.digestMismatch input.environmentId baseline.seq))
      | .ok digest =>
        if digest ≠ baseline.valuesDigestHex then
          .ok (rejected (.digestMismatch input.environmentId baseline.seq))
        else .ok (servedOutcome input snapshot baseline)

/-! ## What an accepted response is -/

/-- A served value beside the notarized ones: one of them, or later than all the checkpoint knew. -/
structure Held (notarized : List EnvValuesDigestEntry) (epoch : Nat) (value : CheckpointCheckedValue) : Prop where
  version : ∀ entry ∈ notarized, entry.variableId = value.variableId → entry.version ≤ value.version
  hash : ∀ entry ∈ notarized, entry.variableId = value.variableId → entry.version = value.version →
    value.signedBytesHashHex = entry.valueSigHashHex
  epoch : (⟨value.variableId, value.version, value.signedBytesHashHex⟩ : EnvValuesDigestEntry) ∉ notarized →
    epoch ≤ value.epoch

theorem servedValueReason_eq_none {baseline : EnvironmentCheckpointState} {value : CheckpointCheckedValue}
    {entry : Option EnvValuesDigestEntry} : servedValueReason baseline value entry = none ↔
      match entry with
      | none => baseline.epoch ≤ value.epoch
      | some entry => entry.version ≤ value.version ∧
          (value.version = entry.version → value.signedBytesHashHex = entry.valueSigHashHex) ∧
          (entry.version < value.version → baseline.epoch ≤ value.epoch) := by
  cases entry with
  | none => simp [servedValueReason]
  | some entry =>
    simp only [servedValueReason]
    split_ifs with hversion hhash hepoch
    · simp only [false_iff, not_and]
      omega
    · simp only [false_iff, not_and]
      exact fun _ h => absurd (h hhash.1) hhash.2
    · simp only [false_iff, not_and]
      exact fun _ _ h => absurd (h hepoch.1) (by omega)
    · simp only [true_iff]
      refine ⟨by omega, fun heq => ?_, fun hlt => ?_⟩
      · by_contra hne
        exact hhash ⟨heq, hne⟩
      · by_contra hne
        exact hepoch ⟨hlt, by omega⟩

theorem snapshotById_eq {snapshot : CheckpointValueSnapshot} (h : (snapshot.entries.map (·.variableId)).Nodup)
    {variableId : JsString} {entry : EnvValuesDigestEntry} :
    snapshotById snapshot variableId = some entry ↔ entry ∈ snapshot.entries ∧ entry.variableId = variableId := by
  have hkeys : ((snapshot.entries.map fun entry => (entry.variableId, entry)).map Prod.fst).Nodup := by
    rw [List.map_map]
    exact h
  unfold snapshotById
  rw [← OrderedMap.mem_entries, OrderedMap.entries_ofEntries hkeys, List.mem_map]
  constructor
  · rintro ⟨other, hmem, heq⟩
    cases heq
    exact ⟨hmem, rfl⟩
  · rintro ⟨hmem, rfl⟩
    exact ⟨entry, hmem, rfl⟩

theorem omissionReason_eq_none {snapshot : CheckpointValueSnapshot} {servedIds tombstoneIds : List JsString}
    {baselineSeq : Nat} : omissionReason snapshot servedIds tombstoneIds baselineSeq = none ↔
      ∀ entry ∈ snapshot.entries, entry.variableId ∈ servedIds ∨ entry.variableId ∈ tombstoneIds := by
  unfold omissionReason
  rw [List.findSome?_eq_none_iff]
  refine forall₂_congr fun entry _ => ?_
  by_cases hserved : entry.variableId ∈ servedIds <;> by_cases htombstone : entry.variableId ∈ tombstoneIds <;>
    simp [hserved, htombstone]

theorem locatorOutcome_ne_ok {history : ChainHistoryIndex} {environmentId : EnvironmentId}
    {snapshot : CheckpointValueSnapshot} {baseline : EnvironmentCheckpointState} {fetchedAtHeadSeq : Nat} :
    locatorOutcome history environmentId snapshot baseline fetchedAtHeadSeq ≠ some .ok := by
  unfold locatorOutcome
  split_ifs <;> simp [rejected, retriable]

theorem checkCheckpointIntegrity_ok {crypto : Crypto} {input : IntegrityInput} {baseline : EnvironmentCheckpointState}
    (hbaseline : input.history.latestCheckpointFor input.environmentId = some baseline)
    (h : checkCheckpointIntegrity crypto input = .ok .ok) : ∃ snapshot, input.snapshot = some snapshot ∧
      computeEnvValuesDigest crypto suiteId snapshot.entries = .ok baseline.valuesDigestHex ∧
      servedOutcome input snapshot baseline = .ok := by
  unfold checkCheckpointIntegrity at h
  rw [hbaseline] at h
  cases hsnapshot : input.snapshot with
  | none =>
    rw [hsnapshot] at h
    dsimp only at h
    split_ifs at h <;> cases h
  | some snapshot =>
    rw [hsnapshot] at h
    dsimp only at h
    split at h
    · rename_i locator hlocator
      obtain rfl := Except.ok.inj h
      exact absurd hlocator locatorOutcome_ne_ok
    · split at h
      · cases h
      · cases h
      · rename_i digest hdigest
        split_ifs at h with heq
        · cases h
        · refine ⟨snapshot, rfl, ?_, Except.ok.inj h⟩
          rw [hdigest, not_not.mp heq]

/-- A response that takes nothing back of what was notarized. -/
structure Protects (notarized : List EnvValuesDigestEntry) (epoch : Nat) (input : IntegrityInput) : Prop where
  served : ∀ entry ∈ notarized, entry.variableId ∈ input.tombstoneIds ∨
    ∃ value ∈ input.served, value.variableId = entry.variableId ∧ entry.version ≤ value.version ∧
      (entry.version = value.version → value.signedBytesHashHex = entry.valueSigHashHex)
  held : ∀ value ∈ input.served, Held notarized epoch value

theorem protects_of_servedOutcome {input : IntegrityInput} {snapshot : CheckpointValueSnapshot}
    {baseline : EnvironmentCheckpointState} (hnodup : (snapshot.entries.map (·.variableId)).Nodup)
    (h : servedOutcome input snapshot baseline = .ok) : Protects snapshot.entries baseline.epoch input := by
  unfold servedOutcome at h
  split at h
  · cases h
  rename_i hserved
  split at h
  · cases h
  rename_i homission
  rw [List.findSome?_eq_none_iff] at hserved
  have hheld : ∀ value ∈ input.served, Held snapshot.entries baseline.epoch value := by
    intro value hvalue
    have hreason := servedValueReason_eq_none.mp (hserved value hvalue)
    cases hentry : snapshotById snapshot value.variableId with
    | none =>
      have hnot : ∀ entry ∈ snapshot.entries, entry.variableId ≠ value.variableId := fun entry hmem hid => by
        rw [(snapshotById_eq hnodup).mpr ⟨hmem, hid⟩] at hentry
        cases hentry
      rw [hentry] at hreason
      exact ⟨fun entry hmem hid => absurd hid (hnot entry hmem), fun entry hmem hid => absurd hid (hnot entry hmem),
        fun _ => hreason⟩
    | some entry =>
      obtain ⟨hmem, hid⟩ := (snapshotById_eq hnodup).mp hentry
      have honly : ∀ other ∈ snapshot.entries, other.variableId = value.variableId → other = entry :=
        fun other hother heq => List.inj_on_of_nodup_map hnodup hother hmem (heq.trans hid.symm)
      rw [hentry] at hreason
      obtain ⟨hversion, hhash, hepoch⟩ := hreason
      refine ⟨fun other hother heq => ?_, fun other hother heq hsame => ?_, fun hnot => ?_⟩
      · rw [honly other hother heq]
        exact hversion
      · rw [honly other hother heq] at hsame ⊢
        exact hhash hsame.symm
      · rcases Nat.lt_or_eq_of_le hversion with hlt | heq
        · exact hepoch hlt
        · -- at the notarized version the value is the notarized one
          have hvalue : (⟨value.variableId, value.version, value.signedBytesHashHex⟩ : EnvValuesDigestEntry) = entry := by
            rw [hhash heq.symm, ← hid, ← heq]
          exact absurd (hvalue ▸ hmem) hnot
  refine ⟨fun entry hmem => ?_, hheld⟩
  rcases omissionReason_eq_none.mp homission entry hmem with hid | hid
  · obtain ⟨value, hvalue, hsame⟩ := List.mem_map.mp hid
    have h := hheld value hvalue
    exact Or.inr ⟨value, hvalue, hsame, h.version entry hmem hsame.symm, h.hash entry hmem hsame.symm⟩
  · exact Or.inl hid

/-- A response that is accepted on a chain whose latest checkpoint of `e` is `tuple`, at position `n`. -/
structure AcceptedAgainst (crypto : Crypto) (e : EnvironmentId) (n : Nat) (tuple : CheckpointEnvironmentEntry)
    (input : IntegrityInput) : Prop where
  chain : ∃ entries st, verifyChainWithHistory crypto entries = .ok (st, input.history) ∧
    LatestCheckpoint crypto entries e n tuple
  environment : input.environmentId = e
  accepted : checkCheckpointIntegrity crypto input = .ok .ok

/-- The enumeration of a response has well-formed ids, and no hash of its own under the notarized one's. -/
def Comparable (crypto : Crypto) (notarized : List EnvValuesDigestEntry) (input : IntegrityInput) : Prop :=
  ∀ snapshot, input.snapshot = some snapshot → (∀ entry ∈ snapshot.entries, wellFormed entry.variableId = true) ∧
    ∀ b b', valuesDigestBytes suiteId notarized = some b → valuesDigestBytes suiteId snapshot.entries = some b' →
      crypto.sha256 b = crypto.sha256 b' → b = b'

theorem protects_of_accepted {crypto : Crypto} {e : EnvironmentId} {n : Nat} {tuple : CheckpointEnvironmentEntry}
    {notarized : List EnvValuesDigestEntry}
    (hdigest : computeEnvValuesDigest crypto suiteId notarized = .ok tuple.valuesDigestHex)
    (hids : ∀ entry ∈ notarized, wellFormed entry.variableId = true) {input : IntegrityInput}
    (h : AcceptedAgainst crypto e n tuple input) (hcompare : Comparable crypto notarized input) :
    Protects notarized tuple.epoch input := by
  obtain ⟨entries, st, hchain, hlatest⟩ := h.chain
  have hbaseline := latestCheckpointFor_of_latest hchain hlatest
  rw [← h.environment] at hbaseline
  obtain ⟨snapshot, hsnapshot, hsame, hserved⟩ := checkCheckpointIntegrity_ok hbaseline h.accepted
  obtain ⟨hids', hcollide⟩ := hcompare snapshot hsnapshot
  have hprotects := protects_of_servedOutcome (computeVariableKeyedDigest_ok hsame).nodup hserved
  have hmem := mem_iff_of_digest hdigest hsame hcollide hids hids'
  refine ⟨fun entry hentry => hprotects.served entry ((hmem entry).mp hentry), fun value hvalue => ?_⟩
  have hheld := hprotects.held value hvalue
  exact ⟨fun entry hentry => hheld.version entry ((hmem entry).mp hentry),
    fun entry hentry => hheld.hash entry ((hmem entry).mp hentry),
    fun hnot => hheld.epoch fun hin => hnot ((hmem _).mpr hin)⟩

/-- What a checkpoint notarized is not taken back by any response that is accepted against it, and no two of them
differ on it. -/
theorem checkpoint_protects (crypto : Crypto) (e : EnvironmentId) (n : Nat) (tuple : CheckpointEnvironmentEntry)
    (notarized : List EnvValuesDigestEntry)
    (hdigest : computeEnvValuesDigest crypto suiteId notarized = .ok tuple.valuesDigestHex)
    (hids : ∀ entry ∈ notarized, wellFormed entry.variableId = true) (input : IntegrityInput)
    (h : AcceptedAgainst crypto e n tuple input) (hcompare : Comparable crypto notarized input) :
    Protects notarized tuple.epoch input ∧
      ∀ input', AcceptedAgainst crypto e n tuple input' → Comparable crypto notarized input' →
        ∀ entry ∈ notarized, ∀ value ∈ input.served, ∀ value' ∈ input'.served,
          value.variableId = entry.variableId → value'.variableId = entry.variableId →
          value.version = entry.version → value'.version = entry.version →
          value.signedBytesHashHex = value'.signedBytesHashHex := by
  have hprotects := protects_of_accepted hdigest hids h hcompare
  refine ⟨hprotects, fun input' h' hcompare' entry hentry value hvalue value' hvalue' hid hid' hversion hversion' => ?_⟩
  have hprotects' := protects_of_accepted hdigest hids h' hcompare'
  rw [(hprotects.held value hvalue).hash entry hentry hid.symm hversion.symm,
    (hprotects'.held value' hvalue').hash entry hentry hid'.symm hversion'.symm]

/-! ## An example

One environment with two values. Version 1 of its manifest is checkpointed twice, version 2 under two signatures. -/

def notarizedValues : List EnvValuesDigestEntry :=
  [⟨lit "API_KEY", 2, List.replicate 64 97⟩, ⟨lit "TOKEN", 1, List.replicate 64 99⟩]

def notarizedTuple (manifestVersion : Nat) (digit : UInt16) : CheckpointEnvironmentEntry where
  environmentId := lit "prod"
  epoch := 1
  manifestVersion := manifestVersion
  manifestSigHashHex := List.replicate 64 digit
  valuesDigestHex := hex 32 0xe3101f003bb95eabe9ccb6e50d01f6435d842a9f8101d8e3520f47dcd3215657

def notarizedOperations : List ProposableOperation :=
  [.genesis { encPubHex := notaryKey.enc, sigPubHex := notaryKey.sig },
  .createEnvironment { environmentId := lit "prod", dekCommitmentHex := List.replicate 64 49 },
  .checkpoint { environments := [notarizedTuple 1 98], auditHeadHashHex := [] },
  .checkpoint { environments := [notarizedTuple 1 98], auditHeadHashHex := [] },
  .checkpoint { environments := [notarizedTuple 2 99], auditHeadHashHex := [] },
  .checkpoint { environments := [notarizedTuple 2 100], auditHeadHashHex := [] }]

/-- The hash of the entry before, and the signature, of each. -/
def notarizedSignatures : List (JsString × Nat) :=
  [(genesisPrevHash,
    0x0ef3ea47921873938f0ebfec0c824b0c543707ec5629882f8058953cef6bd72a183fb51aa2aa2f1e76dd267375ac93272ab997aa2469fe8959eec98390b84603),
  (hex 32 0xa83dcd548d75f64510685f5239ee807d15be5820bbdae87a5e124e34f42dfa31,
    0xf6552603065f16fcb2e411ae19f1f926ac4cc5ad97b9b8b7d91608382ce1bc8db85ff68b5ddce67b7603f0e0aa90e611fffa2a581db71c59f2b45af86ad6ef06),
  (hex 32 0x70d7925989d4a0814b73d0d6cfcfaf9d994c3673f21747d2c3538fb422c139f3,
    0x8f110d71848df9f4cab935debc9a6ae6d62de863547ee676aea00157a3cc92a7227371fa19c897e6dd6315c6d375aac49d38211fa6e054d9de7b5d009d6c830d),
  (hex 32 0x54d3f46e63ce1a4170d289b47a60981dae7a87ca21f2ce8e43c9c9ebd54e1bdb,
    0xe9e6b792df6f0de4a862d46bcef9659fb0de5d1602d934bf0bfa1971a86df5fb560ac83392344e186900c31a48b3492a484d58e5b18974e708903cf02f4e0104),
  (hex 32 0xb77ab30f8b0f93635dbf218ad6231c649f9d7bd30bee5487317afe3b0f300de1,
    0xd8749329c5f0f2c2e971e60c3e67d3304a63377c82d05bd3e5e145b60b2d79e846282888605d4f3604d2b096932bcf824445930a74bcfa4647df9256ab39da02),
  (hex 32 0xedb9c79fbb5388938843fd92f49127e3679a0942ec64d54266898b5d97c71243,
    0xe1c0083bb9f7d193f59d7be490caf9f6108175ab82cffea2813e734be792e6a79c922c1a8cfd6774f3e5d5b609548c7abd4f8b463ec11ad1c93d6cb7df5bea02)]

def notarizedEntries : List ChainEntry :=
  (notarizedOperations.zip notarizedSignatures).mapIdx fun i (operation, prevHashHex, signature) =>
    exampleEntry (i + 1) prevHashHex (.direct operation) "alice" notaryKey signature

def notaryCrypto : Crypto := signedBy [notaryKey] notarizedEntries

def notarizedChain : List Json := notarizedEntries.map entryJson

def notaryHash : JsString := hex 32 0x45db0943d62ecaa1ce8143f995b27bf8ef0e8cf1ea347788e690e1c0472da021

/-- A response with the notarized values' enumeration. -/
def servedResponse (history : ChainHistoryIndex) (served : List CheckpointCheckedValue) (tombstoneIds : List JsString) :
    IntegrityInput where
  history := history
  environmentId := lit "prod"
  snapshot := some ⟨6, notaryHash, notarizedValues⟩
  served := served
  tombstoneIds := tombstoneIds
  fetchedAtHeadSeq := 6

/-- One value as notarized, one written again, one new. -/
def grownValues : List CheckpointCheckedValue :=
  [⟨lit "API_KEY", 2, 1, List.replicate 64 97⟩, ⟨lit "TOKEN", 3, 1, List.replicate 64 101⟩,
    ⟨lit "URL", 1, 1, List.replicate 64 102⟩]

/-- One value as notarized, the other deleted. -/
def shrunkValues : List CheckpointCheckedValue := [⟨lit "API_KEY", 2, 1, List.replicate 64 97⟩]

set_option maxRecDepth 100000 in
theorem notarizedChain_evaluates : (verifyChainWithHistory notaryCrypto notarizedChain).toBool = true := by
  rw [notaryCrypto, signedBy_eq]
  decide +kernel

set_option maxRecDepth 100000 in
theorem notarizedEntries_read : ∀ entry ∈ notarizedEntries, checkPayloadShape (entryJson entry) = some entry := by
  decide +kernel

theorem notarizedValues_order : orderedEntries EnvValuesDigestEntry.variableId notarizedValues = notarizedValues :=
  List.mergeSort_of_pairwise (by decide)

set_option maxRecDepth 100000 in
theorem notarizedValues_digest : computeEnvValuesDigest notaryCrypto suiteId notarizedValues =
    .ok (notarizedTuple 2 100).valuesDigestHex := by
  unfold computeEnvValuesDigest computeVariableKeyedDigest keyedDigestBytes
  rw [notarizedValues_order, notaryCrypto, signedBy_eq]
  decide +kernel

set_option maxRecDepth 100000 in
theorem notarizedEntries_last : notarizedEntries[5]?.bind (computeChainEntryHash notaryCrypto) = some notaryHash := by
  rw [notaryCrypto, signedBy_eq]
  decide +kernel

theorem notarizedValues_ids : ∀ entry ∈ notarizedValues, wellFormed entry.variableId = true := by decide +kernel

section Notarized
variable {n : Nat} {s s' : MutableChainState} {entry : ChainEntry} {hash : JsString} {applied : Option AppliedOperation}

theorem entry_of_notarized (hat : EntryAt notaryCrypto notarizedChain n s entry hash s' applied) :
    notarizedEntries[n]? = some entry := by
  obtain ⟨j, hj, hshape⟩ := hat.read
  unfold notarizedChain at hj
  rw [List.getElem?_map, Option.map_eq_some_iff] at hj
  obtain ⟨entry', hentry', rfl⟩ := hj
  rw [notarizedEntries_read entry' (List.mem_of_getElem? hentry'), Option.some.injEq] at hshape
  rw [hentry', hshape]

theorem applied_of_notarized (hat : EntryAt notaryCrypto notarizedChain n s entry hash s' applied) :
    ∃ a, applied = some a ∧ notarizedOperations[n]? = some a.operation := by
  have hoperations : (notarizedEntries.map fun entry => entry.operation) = notarizedOperations.map .direct := rfl
  have hop : (notarizedOperations.map ChainOperation.direct)[n]? = some entry.operation := by
    rw [← hoperations, List.getElem?_map, entry_of_notarized hat]
    rfl
  rw [List.getElem?_map, Option.map_eq_some_iff] at hop
  obtain ⟨operation, hget, hop⟩ := hop
  have htransition := hat.transition
  rw [hget]
  cases htransition with
  | genesis p hop' => rw [← hop] at hop'; cases hop'; exact ⟨_, rfl, rfl⟩
  | direct op m d hop' => rw [← hop] at hop'; cases hop'; exact ⟨_, rfl, rfl⟩
  | proposed p m d hop' => rw [← hop] at hop'; cases hop'
  | voted ref q m d hop' => rw [← hop] at hop'; cases hop'
  | completed ref q policy m d proposer device hop' => rw [← hop] at hop'; cases hop'
  | withdrawn ref q m d hop' => rw [← hop] at hop'; cases hop'

end Notarized

theorem notarizedChain_accepted : ∃ st index, verifyChainWithHistory notaryCrypto notarizedChain = .ok (st, index) := by
  have haccepted := notarizedChain_evaluates
  cases hchain : verifyChainWithHistory notaryCrypto notarizedChain with
  | error failure => rw [hchain] at haccepted; cases haccepted
  | ok result => exact ⟨result.1, result.2, rfl⟩

theorem notarized_iff {n : Nat} {tuple : CheckpointEnvironmentEntry} :
    (∃ s entry hash s' applied p, EntryAt notaryCrypto notarizedChain n s entry hash s' (some applied) ∧
      applied.operation = .checkpoint p ∧ tuple ∈ p.environments) ↔
    ∃ p, notarizedOperations[n]? = some (.checkpoint p) ∧ tuple ∈ p.environments := by
  constructor
  · rintro ⟨s, entry, hash, s', applied, p, hat, hop, hmem⟩
    obtain ⟨a, ha, hget⟩ := applied_of_notarized hat
    cases ha
    exact ⟨p, hop ▸ hget, hmem⟩
  · rintro ⟨p, hget, hmem⟩
    obtain ⟨st, index, hchain⟩ := notarizedChain_accepted
    obtain ⟨s, entry, hash, s', applied, hat⟩ := entryAt_of_verifyChain (verifyChain_of_withHistory hchain)
      (show n < notarizedChain.length from (List.getElem?_eq_some_iff.mp hget).1)
    obtain ⟨a, rfl, hget'⟩ := applied_of_notarized hat
    rw [hget, Option.some.injEq] at hget'
    exact ⟨s, entry, hash, s', a, p, hat, hget'.symm, hmem⟩

theorem notarizedChain_latest : ∃ st index, verifyChainWithHistory notaryCrypto notarizedChain = .ok (st, index) ∧
    LatestCheckpoint notaryCrypto notarizedChain (lit "prod") 5 (notarizedTuple 2 100) ∧
    index.entryHashAt 6 = some notaryHash := by
  obtain ⟨st, index, hchain⟩ := notarizedChain_accepted
  obtain ⟨s, entry, hash, s', applied, hat⟩ :=
    entryAt_of_verifyChain (verifyChain_of_withHistory hchain) (show 5 < notarizedChain.length by decide)
  have hhash := notarizedEntries_last
  rw [entry_of_notarized hat, Option.bind_some, hat.hash_eq, Option.some.injEq] at hhash
  subst hhash
  have hindexed := Audit.entryHashAt_eq hchain hat
  rw [hat.seq_eq] at hindexed
  refine ⟨st, index, hchain, ⟨notarized_iff.mpr ⟨_, rfl, List.mem_singleton_self _⟩, rfl, ?_⟩, hindexed⟩
  intro k hk _ _ _ _ _ hat'
  have hlt := hat'.lt_length
  have hlength : notarizedChain.length = 6 := rfl
  omega

theorem servedResponse_accepted {st : ChainState} {index : ChainHistoryIndex} {served : List CheckpointCheckedValue}
    {tombstoneIds : List JsString} (hchain : verifyChainWithHistory notaryCrypto notarizedChain = .ok (st, index))
    (hlatest : LatestCheckpoint notaryCrypto notarizedChain (lit "prod") 5 (notarizedTuple 2 100))
    (hhash : index.entryHashAt 6 = some notaryHash)
    (hserved : servedOutcome (servedResponse index served tombstoneIds) ⟨6, notaryHash, notarizedValues⟩
      (checkpointStateOf (notarizedTuple 2 100) 6) = .ok) :
    AcceptedAgainst notaryCrypto (lit "prod") 5 (notarizedTuple 2 100) (servedResponse index served tombstoneIds) := by
  refine ⟨⟨notarizedChain, st, hchain, hlatest⟩, rfl, ?_⟩
  have hbaseline := latestCheckpointFor_of_latest hchain hlatest
  have hlocator : locatorOutcome index (lit "prod") ⟨6, notaryHash, notarizedValues⟩
      (checkpointStateOf (notarizedTuple 2 100) 6) 6 = none := by
    have hhead : ¬ index.headSeq < 6 := by
      intro hlt
      rw [ChainHistoryIndex.entryHashAt, if_neg] at hhash
      · cases hhash
      · simp [ChainHistoryIndex.inRange, hlt]
    unfold locatorOutcome
    exact (if_neg hhead).trans ((if_neg (not_not.mpr hhash)).trans (if_pos rfl))
  unfold checkCheckpointIntegrity
  simp only [servedResponse, hbaseline, hlocator]
  rw [notarizedValues_digest]
  exact (if_neg (not_not.mpr rfl)).trans (congrArg Except.ok hserved)

theorem servedResponse_comparable (index : ChainHistoryIndex) (served : List CheckpointCheckedValue)
    (tombstoneIds : List JsString) :
    Comparable notaryCrypto notarizedValues (servedResponse index served tombstoneIds) := by
  intro snapshot hsnapshot
  cases hsnapshot
  exact ⟨notarizedValues_ids, fun b b' hb hb' _ => Option.some.inj (hb.symm.trans hb')⟩

theorem checkpoint_protects_example : ∃ st index, verifyChainWithHistory notaryCrypto notarizedChain = .ok (st, index) ∧
    Protects notarizedValues 1 (servedResponse index grownValues []) ∧
    ∀ entry ∈ notarizedValues, ∀ value ∈ grownValues, ∀ value' ∈ shrunkValues,
      value.variableId = entry.variableId → value'.variableId = entry.variableId →
      value.version = entry.version → value'.version = entry.version →
      value.signedBytesHashHex = value'.signedBytesHashHex := by
  obtain ⟨st, index, hchain, hlatest, hhash⟩ := notarizedChain_latest
  obtain ⟨hprotects, hagree⟩ := checkpoint_protects notaryCrypto (lit "prod") 5 (notarizedTuple 2 100) notarizedValues
    notarizedValues_digest notarizedValues_ids (servedResponse index grownValues []) (servedResponse_accepted hchain hlatest hhash rfl)
    (servedResponse_comparable index grownValues [])
  exact ⟨st, index, hchain, hprotects, hagree (servedResponse index shrunkValues [lit "TOKEN"])
    (servedResponse_accepted hchain hlatest hhash rfl) (servedResponse_comparable index shrunkValues _)⟩

end Maruhi.Checkpoint
