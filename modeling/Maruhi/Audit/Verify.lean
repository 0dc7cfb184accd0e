import Mathlib.Data.List.Dedup
import Mathlib.Data.List.Sort
import Maruhi.Audit.Replay

/-!
# Verifying the mirror (`audit-verify.ts`, `audit-mirror.ts`)

The client maps the verified chain as the server does, and compares the rows with those the server distributes.
-/

open Text

namespace Maruhi.Audit
open Chain

/-! ## Structural equality -/

/-- The own property `key` of an object with these fields. -/
def ownProperty (fields : List (JsString × Json)) (key : JsString) : Option Json := fields.reverse.lookup key

/-- `Object.keys` -/
def objectKeys (fields : List (JsString × Json)) : List JsString := (fields.map Prod.fst).dedup

mutual

/-- Structural equality of JSON values, whatever the order of the keys. -/
def jsonEqual : Json → Json → Bool
  | .null, .null => true
  | .bool a, .bool b => a = b
  | .num a, .num b => a = b
  | .str a, .str b => a = b
  | .arr a, .arr b => itemsEqual a b
  | .obj a, .obj b => (objectKeys a).length = (objectKeys b).length && fieldsEqual a b
  | _, _ => false

def itemsEqual : List Json → List Json → Bool
  | [], [] => true
  | a :: as, b :: bs => jsonEqual a b && itemsEqual as bs
  | _, _ => false

/-- Every own property of the first object is one of the second's; a field whose key comes again is none. -/
def fieldsEqual : List (JsString × Json) → List (JsString × Json) → Bool
  | [], _ => true
  | field :: rest, right => ((rest.map Prod.fst).contains field.1 || fieldEqual field right) && fieldsEqual rest right

def fieldEqual : JsString × Json → List (JsString × Json) → Bool
  | (key, value), right =>
    match ownProperty right key with
    | none => false
    | some other => jsonEqual value other

end

attribute [grind =] jsonEqual itemsEqual fieldsEqual fieldEqual

/-- The same value, up to the order of keys. -/
inductive Same : Json → Json → Prop
  | null : Same .null .null
  | bool (b : Bool) : Same (.bool b) (.bool b)
  | num (n : JsonNumber) : Same (.num n) (.num n)
  | str (s : JsString) : Same (.str s) (.str s)
  | arr {a b : List Json} (h : List.Forall₂ Same a b) : Same (.arr a) (.arr b)
  | obj {a b : List (JsString × Json)}
      (h : ∀ key, ownProperty a key = none ↔ ownProperty b key = none)
      (h' : ∀ key value other, ownProperty a key = some value → ownProperty b key = some other → Same value other) :
      Same (.obj a) (.obj b)

theorem ownProperty_cons (key : JsString) (value : Json) (rest : List (JsString × Json)) (k : JsString) :
    ownProperty ((key, value) :: rest) k = (ownProperty rest k).or (if k = key then some value else none) := by
  unfold ownProperty
  rw [List.reverse_cons, List.lookup_append, List.lookup_cons, List.lookup_nil]
  by_cases h : k = key
  · simp [h]
  · simp [h, beq_eq_false_iff_ne.mpr h]

theorem ownProperty_isSome (fields : List (JsString × Json)) (key : JsString) :
    (ownProperty fields key).isSome = true ↔ key ∈ fields.map Prod.fst := by
  unfold ownProperty
  rw [List.lookup_isSome_iff, List.mem_map]
  constructor
  · rintro ⟨e, he, heq⟩
    exact ⟨e, List.mem_reverse.mp he, (eq_of_beq heq).symm⟩
  · rintro ⟨e, he, rfl⟩
    exact ⟨e, List.mem_reverse.mpr he, beq_self_eq_true _⟩

theorem same_keys {a b : List (JsString × Json)} (hlength : (objectKeys a).length = (objectKeys b).length)
    (hsub : ∀ key, (ownProperty a key).isSome = true → (ownProperty b key).isSome = true) (key : JsString) :
    ownProperty a key = none ↔ ownProperty b key = none := by
  have hsubset : objectKeys a ⊆ objectKeys b := by
    intro key hkey
    unfold objectKeys at hkey ⊢
    rw [List.mem_dedup] at hkey ⊢
    rw [← ownProperty_isSome] at hkey ⊢
    exact hsub key hkey
  have hperm : (objectKeys a).Perm (objectKeys b) :=
    (List.subperm_of_subset (List.nodup_dedup _) hsubset).perm_of_length_le hlength.ge
  have hmem := hperm.mem_iff (a := key)
  unfold objectKeys at hmem
  rw [List.mem_dedup, List.mem_dedup, ← ownProperty_isSome, ← ownProperty_isSome] at hmem
  rw [← Option.not_isSome_iff_eq_none, ← Option.not_isSome_iff_eq_none, hmem]

theorem same_keys_length {a b : List (JsString × Json)} (h : ∀ key, ownProperty a key = none ↔ ownProperty b key = none) :
    (objectKeys a).length = (objectKeys b).length := by
  refine List.Perm.length_eq ((List.perm_ext_iff_of_nodup (List.nodup_dedup _) (List.nodup_dedup _)).mpr fun key => ?_)
  rw [List.mem_dedup, List.mem_dedup, ← ownProperty_isSome, ← ownProperty_isSome]
  have := h key
  rw [← Option.not_isSome_iff_eq_none, ← Option.not_isSome_iff_eq_none] at this
  exact not_iff_not.mp this

mutual

/-- The comparison finds two values equal exactly where they are the same up to the order of keys. -/
theorem jsonEqual_iff : (a b : Json) → (jsonEqual a b = true ↔ Same a b)
  | .null, b => by
    refine ⟨fun h => ?_, fun h => by cases h; simp [jsonEqual]⟩
    cases b <;> first | exact .null | simp [jsonEqual] at h
  | .bool a, b => by
    refine ⟨fun h => ?_, fun h => by cases h; simp [jsonEqual]⟩
    cases b with
    | bool b =>
      obtain rfl : a = b := by simpa [jsonEqual] using h
      exact .bool a
    | _ => simp [jsonEqual] at h
  | .num a, b => by
    refine ⟨fun h => ?_, fun h => by cases h; simp [jsonEqual]⟩
    cases b with
    | num b =>
      obtain rfl : a = b := by simpa [jsonEqual] using h
      exact .num a
    | _ => simp [jsonEqual] at h
  | .str a, b => by
    refine ⟨fun h => ?_, fun h => by cases h; simp [jsonEqual]⟩
    cases b with
    | str b =>
      obtain rfl : a = b := by simpa [jsonEqual] using h
      exact .str a
    | _ => simp [jsonEqual] at h
  | .arr a, b => by
    have hitems := itemsEqual_iff a
    refine ⟨fun h => ?_, fun h => ?_⟩
    · cases b with
      | arr b => exact .arr ((hitems b).mp (by simpa [jsonEqual] using h))
      | _ => simp [jsonEqual] at h
    · cases h with
      | arr h => simpa [jsonEqual] using (hitems _).mpr h
  | .obj a, b => by
    have hfields := fieldsEqual_iff a
    refine ⟨fun h => ?_, fun h => ?_⟩
    · cases b with
      | obj b =>
        obtain ⟨hlength, hall⟩ : (objectKeys a).length = (objectKeys b).length ∧ fieldsEqual a b = true := by
          simpa [jsonEqual] using h
        rw [hfields] at hall
        refine .obj (same_keys hlength fun key hkey => ?_) fun key value other hvalue hother => ?_
        · obtain ⟨value, hvalue⟩ := Option.isSome_iff_exists.mp hkey
          obtain ⟨other, hother, -⟩ := hall key value hvalue
          rw [hother]
          rfl
        · obtain ⟨other', hother', hsame⟩ := hall key value hvalue
          cases hother.symm.trans hother'
          exact hsame
      | _ => simp [jsonEqual] at h
    · cases h with
      | @obj _ b hkeys hvalues =>
        have hall : fieldsEqual a b = true := by
          rw [hfields]
          intro key value hvalue
          cases hother : ownProperty b key with
          | none => rw [(hkeys key).mpr hother] at hvalue; cases hvalue
          | some other => exact ⟨other, rfl, hvalues key value other hvalue hother⟩
        simpa [jsonEqual, hall] using same_keys_length hkeys

theorem itemsEqual_iff : (as bs : List Json) → (itemsEqual as bs = true ↔ List.Forall₂ Same as bs)
  | [], [] => by simp [itemsEqual]
  | [], _ :: _ => by simp [itemsEqual]
  | _ :: _, [] => by simp [itemsEqual]
  | a :: as, b :: bs => by
    rw [itemsEqual, Bool.and_eq_true, jsonEqual_iff a b, itemsEqual_iff as bs, List.forall₂_cons]

theorem fieldsEqual_iff : (fields right : List (JsString × Json)) → (fieldsEqual fields right = true ↔
    ∀ key value, ownProperty fields key = some value → ∃ other, ownProperty right key = some other ∧ Same value other)
  | [], right => by simp [fieldsEqual, ownProperty]
  | (key, value) :: rest, right => by
    have hrest := fieldsEqual_iff rest right
    have hvalue := jsonEqual_iff value
    have hfield : fieldEqual (key, value) right = true ↔ ∃ other, ownProperty right key = some other ∧ Same value other := by
      unfold fieldEqual
      cases ownProperty right key with
      | none => simp
      | some other => simp [hvalue]
    rw [fieldsEqual, Bool.and_eq_true, Bool.or_eq_true, List.contains_iff_mem, ← ownProperty_isSome, hrest, hfield]
    constructor
    · rintro ⟨hfirst, hrest⟩ k v hv
      rw [ownProperty_cons] at hv
      cases hk : ownProperty rest k with
      | some v' =>
        rw [hk, Option.some_or, Option.some.injEq] at hv
        exact hrest k v (hv ▸ hk)
      | none =>
        rw [hk, Option.none_or, Option.ite_none_right_eq_some, Option.some.injEq] at hv
        obtain ⟨rfl, rfl⟩ := hv
        refine hfirst.resolve_left ?_
        rw [hk]
        simp
    · intro hall
      refine ⟨?_, fun k v hv => hall k v ?_⟩
      · cases hk : ownProperty rest key with
        | some v => exact Or.inl rfl
        | none => exact Or.inr (hall key value (by rw [ownProperty_cons, hk, Option.none_or, if_pos rfl]))
      · rw [ownProperty_cons, hv, Option.some_or]

end

theorem mem_of_ownProperty {fields : List (JsString × Json)} {key : JsString} {value : Json}
    (h : ownProperty fields key = some value) : (key, value) ∈ fields := by
  unfold ownProperty at h
  obtain ⟨before, after, heq, -⟩ := List.lookup_eq_some_iff.mp h
  exact List.mem_reverse.mp (heq ▸ by simp)

theorem Same.refl : (j : Json) → Same j j
  | .null => .null
  | .bool b => .bool b
  | .num n => .num n
  | .str s => .str s
  | .arr items => .arr (List.forall₂_same.mpr fun j _ => Same.refl j)
  | .obj fields => .obj (fun _ => Iff.rfl) fun key value other hvalue hother => by
    have hmem := List.sizeOf_lt_of_mem (mem_of_ownProperty hvalue)
    cases hvalue.symm.trans hother
    exact Same.refl value
termination_by j => sizeOf j
decreasing_by
  · have := List.sizeOf_lt_of_mem ‹_ ∈ items›
    simp
    omega
  · simp at hmem ⊢
    omega

/-! ## The rows the server distributes -/

/-- A row as distributed. The id and the seq are the store's own. -/
structure WireMirrorRow where
  id : JsString
  seq : Option Nat
  serverTs : Nat
  clientTs : Option JsonNumber
  event : JsString
  actorType : ActorType
  actorUserId : Option JsString
  actorKeyFingerprintHex : Option JsString
  actorApiTokenId : Option JsString
  targetUserId : Option JsString
  targetKeyFingerprintHex : Option JsString
  environmentId : Option JsString
  variableId : Option JsString
  epoch : Option Nat
  version : Option Nat
  chainSeq : Option { n : Nat // 0 < n }
  payload : Option Json

def eventText : AuditEventName → JsString
  | .chainGenesis => lit "chain.genesis"
  | .chainMemberAdded => lit "chain.member_added"
  | .chainMemberRemoved => lit "chain.member_removed"
  | .chainRoleChanged => lit "chain.role_changed"
  | .chainEnvironmentCreated => lit "chain.environment_created"
  | .chainEnvironmentDeleted => lit "chain.environment_deleted"
  | .chainEpochRotated => lit "chain.epoch_rotated"
  | .chainServerGranted => lit "chain.server_granted"
  | .chainServerRevoked => lit "chain.server_revoked"
  | .chainCheckpointed => lit "chain.checkpointed"
  | .chainApprovalPolicyChanged => lit "chain.approval_policy_changed"
  | .chainProposed => lit "chain.proposed"
  | .chainApproved => lit "chain.approved"
  | .chainProposalWithdrawn => lit "chain.proposal_withdrawn"
  | .chainDeviceAdded => lit "chain.device_added"
  | .chainDeviceRevoked => lit "chain.device_revoked"
  | .varCreated => lit "var.created"
  | .varDeleted => lit "var.deleted"
  | .varRead => lit "var.read"
  | .serverLeaseIssued => lit "server.lease_issued"
  | .serverValueDecrypted => lit "server.value_decrypted"
  | .rotationRecommended => lit "rotation.recommended"
  | .other name => name

def mirrorEventNames : List AuditEventName :=
  [.chainGenesis, .chainMemberAdded, .chainMemberRemoved, .chainRoleChanged, .chainEnvironmentCreated,
    .chainEnvironmentDeleted, .chainEpochRotated, .chainServerGranted, .chainServerRevoked, .chainCheckpointed,
    .chainApprovalPolicyChanged, .chainProposed, .chainApproved, .chainProposalWithdrawn, .chainDeviceAdded,
    .chainDeviceRevoked]

/-- `CHAIN_MIRROR_EVENTS` -/
def chainMirrorEventTexts : List JsString := mirrorEventNames.map eventText

/-- `CHAIN_MIRROR_EVENT_PREFIX` -/
def chainNamespace : JsString := lit "chain."

/-! ## One row against its expected row -/

/-- `jsonEqual` where either side may be `undefined`. -/
def optionalEqual (want got : Option Json) : Bool :=
  match want, got with
  | none, none => true
  | some want, some got => jsonEqual want got
  | _, _ => false

/-- The fields that differ. The time of acceptance is the server's own and is not compared. -/
def mirrorMismatches (expected : AuditEventRecord) (observed : WireMirrorRow) : List String :=
  let checks : List (String × Bool) :=
    [("event", eventText expected.event = observed.event),
      ("client_ts", (expected.clientTs.map fun n => JsonNumber.int n) = observed.clientTs),
      ("actor.type", expected.actorType = observed.actorType),
      ("actor.user_id", expected.actorUserId = observed.actorUserId),
      ("actor.key_fingerprint", expected.actorKeyFingerprintHex = observed.actorKeyFingerprintHex),
      ("target.user_id", expected.targetUserId = observed.targetUserId),
      ("target.key_fingerprint", expected.targetKeyFingerprintHex = observed.targetKeyFingerprintHex),
      -- The mapping sets neither a token nor a version.
      ("actor.api_token_id", none = observed.actorApiTokenId),
      ("environment_id", expected.environmentId = observed.environmentId),
      ("variable_id", expected.variableId = observed.variableId),
      ("epoch", expected.epoch = observed.epoch),
      ("version", none = observed.version),
      ("payload", optionalEqual expected.payload observed.payload)]
  (checks.filter fun check => !check.2).map Prod.fst

/-- What the verification throws. -/
inductive VerifyError
  | mirror (error : MirrorError)
  | noRows
  deriving DecidableEq, Repr

/-- The mapping as the client calls it. -/
def expectedRows (entry : ChainEntry) (serverTs : Nat) (index : ProposalIndex) : Except VerifyError (List AuditEventRecord) :=
  (chainMirrorEvents entry serverTs index none).mapError .mirror

def expectedRowFor (entry : ChainEntry) (observed : WireMirrorRow) (index : ProposalIndex) :
    Except VerifyError AuditEventRecord := do
  match ← expectedRows entry observed.serverTs index with
  | [] => .error .noRows
  | first :: rest => pure (((first :: rest).find? fun row => eventText row.event = observed.event).getD first)

def proposalMissingFor (entry : ChainEntry) (index : ProposalIndex) : Bool :=
  match entry.operation with
  | .approve proposalHashHex => !index.has proposalHashHex
  | .withdraw proposalHashHex => !index.has proposalHashHex
  | _ => false

/-! ## The whole mirror -/

inductive MirrorProblem
  | outsideNamespace (id : JsString)
  | unknownOperation (id : JsString)
  | noChainSeq (id : JsString)
  | notContiguous (chainSeq expected : Nat)
  | tooManyAhead (chainSeq count : Nat)
  | proposalMissing (seq : Nat)
  | missing (seq : Nat) (event : AuditEventName)
  | duplicates (seq : Nat) (event : AuditEventName) (ids : List JsString)
  | mismatch (seq : Nat) (id : JsString) (field : String)
  | unexpected (seq : Nat) (id : JsString)
  deriving DecidableEq, Repr

/-- The loop over the sorted seqs, from the one that should come next. -/
def contiguityFrom (counts : OrderedMap Nat Nat) : Nat → List Nat → List MirrorProblem
  | _, [] => []
  | expected, chainSeq :: rest =>
    let count := (counts.get? chainSeq).getD 0
    (if chainSeq ≠ expected then [.notContiguous chainSeq expected] else []) ++
      (if 2 < count then [.tooManyAhead chainSeq count] else []) ++ contiguityFrom counts (chainSeq + 1) rest

attribute [grind =] contiguityFrom

def aheadContiguityProblems (ahead : List Nat) (headSeq : Nat) : List MirrorProblem :=
  let counts := ahead.foldl (fun (counts : OrderedMap Nat Nat) chainSeq =>
    counts.set chainSeq ((counts.get? chainSeq).getD 0 + 1)) .empty
  contiguityFrom counts (headSeq + 1) (counts.keys.insertionSort (· ≤ ·))

structure MirrorBuckets where
  byChainSeq : OrderedMap Nat (List WireMirrorRow)
  problems : List MirrorProblem
  ahead : List Nat

/-- One turn of the loop that indexes the rows. -/
def bucketRow (headSeq : Nat) (buckets : MirrorBuckets) (row : WireMirrorRow) : MirrorBuckets :=
  if !chainNamespace.isPrefixOf row.event then
    { buckets with problems := buckets.problems ++ [.outsideNamespace row.id] }
  else if !chainMirrorEventTexts.contains row.event then
    { buckets with problems := buckets.problems ++ [.unknownOperation row.id] }
  else
    match row.chainSeq with
    | none => { buckets with problems := buckets.problems ++ [.noChainSeq row.id] }
    | some chainSeq =>
      if headSeq < chainSeq.val then { buckets with ahead := buckets.ahead ++ [chainSeq.val] }
      else
        { buckets with
          byChainSeq := buckets.byChainSeq.set chainSeq.val ((buckets.byChainSeq.get? chainSeq.val).getD [] ++ [row]) }

def bucketMirrorRows (rows : List WireMirrorRow) (headSeq : Nat) : MirrorBuckets :=
  let buckets := rows.foldl (bucketRow headSeq) ⟨.empty, [], []⟩
  { buckets with problems := buckets.problems ++ aheadContiguityProblems buckets.ahead headSeq }

/-- The rows observed for one expected row. -/
def expectedRowProblems (entry : ChainEntry) (expected : AuditEventRecord) (rows : List WireMirrorRow)
    (index : ProposalIndex) : Except VerifyError (List MirrorProblem) :=
  match rows with
  | [] => .ok [.missing entry.seq expected.event]
  | [observed] => do
    let row ← expectedRowFor entry observed index
    pure ((mirrorMismatches row observed).map (.mismatch entry.seq observed.id))
  | rows => .ok [.duplicates entry.seq expected.event (rows.map fun row => row.id)]

def entryMirrorProblems (entry : ChainEntry) (matched : List WireMirrorRow) (index : ProposalIndex) :
    Except VerifyError (List MirrorProblem) :=
  if proposalMissingFor entry index then .ok [.proposalMissing entry.seq]
  else do
    let expected ← expectedRows entry 0 index
    let problems ← expected.mapM fun want =>
      expectedRowProblems entry want (matched.filter fun row => row.event = eventText want.event) index
    let unexpected := matched.filter fun row => !(expected.map fun want => eventText want.event).contains row.event
    pure (problems.flatten ++ unexpected.map fun row => .unexpected entry.seq row.id)

structure MirrorVerification where
  problems : List MirrorProblem
  aheadRows : Nat
  exitCode : Nat

/-- `audit verify` over the rows it fetched. -/
def auditVerifyOp (entries : List ChainEntry) (applied : ChainState × ChainHistoryIndex) (rows : List WireMirrorRow) :
    Except VerifyError MirrorVerification := do
  let buckets := bucketMirrorRows rows applied.1.headSeq
  let index := proposalIndexOf entries applied
  let found ← entries.mapM fun entry =>
    entryMirrorProblems entry ((buckets.byChainSeq.get? entry.seq).getD []) index
  let problems := buckets.problems ++ found.flatten
  let aheadRows := buckets.ahead.length
  pure { problems, aheadRows, exitCode := if problems.isEmpty && aheadRows = 0 then 0 else 1 }

end Maruhi.Audit
