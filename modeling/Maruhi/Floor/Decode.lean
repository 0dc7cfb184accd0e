import Maruhi.Floor.Types

/-!
# The log's records as JSON

The schemas of `floor-log-decode.ts`. A struct reads its own fields and drops the others; a union takes
the member whose literal matches. What a client writes is decoded to what it wrote.
-/

open Text

namespace Maruhi.Floor

/-! ## Fields -/

theorem toNat_safe {n : Int} (h : 0 ≤ n ∧ n ≤ Json.maxSafeInteger) : n.toNat ≤ Json.maxSafeInteger := by omega

/-- `Schema.Natural` -/
def natural? : Json → Option Natural
  | .num (.int n) => if h : 0 ≤ n ∧ n ≤ Json.maxSafeInteger then some ⟨n.toNat, toNat_safe h⟩ else none
  | _ => none

def positiveInt? (value : Json) : Option PositiveInt := do
  let n ← natural? value
  if h : 1 ≤ n.1 then some ⟨n.1, h, n.2⟩ else none

def matching? (p : JsString → Bool) (value : Json) : Option { s : JsString // p s = true } := do
  let s ← value.str?
  if h : p s = true then some ⟨s, h⟩ else none

def hashHex? : Json → Option HashHex := matching? (isHexOfLength 64)

def intentId? : Json → Option IntentId := matching? (isHexOfLength 16)

def resourceId? (value : Json) : Option ResourceId := do
  let s ← value.str?
  if h : isResourceId s = true then some ⟨s, h⟩ else none

def nullOr? {T : Type} (decode : Json → Option T) : Json → Option (Option T)
  | .null => some none
  | value => (decode value).map some

/-- A literal among the texts of an enumeration. -/
def literal? {T : Type} (text : T → String) (values : List T) (value : Json) : Option T := do
  let s ← value.str?
  values.find? fun t => lit (text t) = s

/-- A required field. -/
def field {T : Type} (value : Json) (key : String) (decode : Json → Option T) : Option T := (value.find? key).bind decode

def array? {T : Type} (decode : Json → Option T) (value : Json) : Option (List T) := do
  let items ← value.arr?
  items.mapM decode

def isLiteral (value : Json) (key text : String) : Bool := (field value key Json.str?) = some (lit text)

/-- `Schema.Record` under `keysAreIds`: every own property, in the object's own order. -/
def record? {T : Type} (decode : Json → Option T) : Json → Option (Record ResourceId T)
  | .obj fields => do
    let entries ← (Record.ofEntries fields).entries.mapM fun e => do
      let id ← resourceId? (.str e.1)
      let value ← decode e.2
      pure (id, value)
    pure (Record.ofEntries entries)
  | _ => none

/-! ## Decoding -/

def decodeChainHead (value : Json) : Option ChainHeadFloor := do
  let seq ← field value "seq" positiveInt?
  let hashHex ← field value "hashHex" hashHex?
  pure ⟨seq, hashHex⟩

def decodeMetaSide (value : Json) : Option MetaSide := do
  let metaVersion ← field value "metaVersion" positiveInt?
  let metaSigHashHex ← field value "metaSigHashHex" hashHex?
  pure ⟨metaVersion, metaSigHashHex⟩

def decodeVariableFloor (value : Json) : Option VariableFloor :=
  if isLiteral value "status" "active" then do
    let version ← field value "version" positiveInt?
    let epoch ← field value "epoch" positiveInt?
    let valueSigHashHex ← field value "valueSigHashHex" hashHex?
    let side ← decodeMetaSide value
    pure (.active ⟨version, epoch, valueSigHashHex⟩ side)
  else if isLiteral value "status" "declared" then (decodeMetaSide value).map .declared
  else if isLiteral value "status" "deleted" then (decodeMetaSide value).map .deleted
  else none

def decodeManifestFloor (value : Json) : Option ManifestFloor := do
  let manifestVersion ← field value "manifestVersion" positiveInt?
  let epoch ← field value "epoch" positiveInt?
  let manifestSigHashHex ← field value "manifestSigHashHex" hashHex?
  pure ⟨manifestVersion, epoch, manifestSigHashHex⟩

/-- `Schema.optionalKey(ManifestFloorSchema)` -/
def decodeManifestKey (value : Json) : Option (Option ManifestFloor) :=
  match value.find? "manifest" with
  | none => some none
  | some manifest => (decodeManifestFloor manifest).map some

/-- The pair of `metaVersion` and `metaSigHashHex`: 0 with an empty hash, or a version with its hash. -/
def decodeEnvironmentSide (value : Json) : Option (Option MetaSide) := do
  let metaVersion ← field value "metaVersion" natural?
  let metaSigHashHex ← field value "metaSigHashHex" Json.str?
  if h : 1 ≤ metaVersion.1 then do
    let hash ← hashHex? (.str metaSigHashHex)
    pure (some ⟨⟨metaVersion.1, h, metaVersion.2⟩, hash⟩)
  else if metaSigHashHex = [] then some none
  else none

def decodeEnvironmentFloor (value : Json) : Option EnvironmentFloor := do
  let pullEpoch ← field value "pullEpoch" natural?
  let observedEpoch ← field value "observedEpoch" natural?
  let side ← decodeEnvironmentSide value
  let manifest ← decodeManifestKey value
  let variableFloors ← field value "variables" (record? decodeVariableFloor)
  pure ⟨pullEpoch, observedEpoch, side, manifest, variableFloors⟩

def conflictKinds : List ConflictKind := [.chainHead, .value, .variableMeta, .environmentMeta, .manifest, .undeletion]

def ConflictKind.text : ConflictKind → String
  | chainHead => "chain-head"
  | value => "value"
  | variableMeta => "variable-meta"
  | environmentMeta => "environment-meta"
  | manifest => "manifest"
  | undeletion => "undeletion"

def decodeConflict (value : Json) : Option FloorConflict := do
  let kind ← field value "kind" (literal? ConflictKind.text conflictKinds)
  let environmentId ← field value "environmentId" (nullOr? resourceId?)
  let variableId ← field value "variableId" (nullOr? resourceId?)
  let firstVersion ← field value "firstVersion" natural?
  let firstHashHex ← field value "firstHashHex" Json.str?
  let secondVersion ← field value "secondVersion" natural?
  let secondHashHex ← field value "secondHashHex" Json.str?
  pure ⟨kind, environmentId, variableId, firstVersion, firstHashHex, secondVersion, secondHashHex⟩

def manifestIntentOps : List ManifestIntentOp := [.createEnvironment, .rotateEpoch, .metaOp]

def ManifestIntentOp.text : ManifestIntentOp → String
  | createEnvironment => "create_environment"
  | rotateEpoch => "rotate_epoch"
  | metaOp => "meta-op"

def decodeManifestIntent (value : Json) : Option ManifestFloorIntent := do
  let id ← field value "id" intentId?
  let op ← field value "op" (literal? ManifestIntentOp.text manifestIntentOps)
  let environmentId ← field value "environmentId" resourceId?
  let epoch ← field value "epoch" positiveInt?
  let dekCommitmentHex ← field value "dekCommitmentHex" (nullOr? hashHex?)
  let variableId ← field value "variableId" (nullOr? resourceId?)
  let manifestVersion ← field value "manifestVersion" positiveInt?
  let manifestSigHashHex ← field value "manifestSigHashHex" hashHex?
  let declaredHead ← field value "declaredHead" decodeChainHead
  pure ⟨id, op, environmentId, epoch, dekCommitmentHex, variableId, manifestVersion, manifestSigHashHex, declaredHead⟩

def decodeDeletionIntent (value : Json) : Option DeletionFloorIntent := do
  let id ← field value "id" intentId?
  let environmentId ← field value "environmentId" resourceId?
  let declaredHead ← field value "declaredHead" decodeChainHead
  pure ⟨id, environmentId, declaredHead⟩

def decodeIntent (value : Json) : Option FloorIntent :=
  if isLiteral value "op" "delete_environment" then (decodeDeletionIntent value).map .deletion
  else (decodeManifestIntent value).map .manifest

def decodeSnapshotState (value : Json) : Option SnapshotState := do
  let chainHead ← field value "chainHead" (nullOr? decodeChainHead)
  let environments ← field value "environments" (record? decodeEnvironmentFloor)
  let conflicts ← field value "conflicts" (array? decodeConflict)
  let intents ← field value "intents" (array? decodeIntent)
  pure ⟨chainHead, environments, conflicts, intents⟩

def outcomes : List FloorIntentOutcome := [.accepted, .acceptedSuperseded, .rejected, .notAccepted, .superseded]

def FloorIntentOutcome.text : FloorIntentOutcome → String
  | accepted => "accepted"
  | acceptedSuperseded => "accepted-superseded"
  | rejected => "rejected"
  | notAccepted => "not-accepted"
  | superseded => "superseded"

inductive RecordKind
  | head
  | pull
  | push
  | metadata
  | manifest
  | intent
  | resolution
  | snapshot
  deriving DecidableEq, Repr

def recordKinds : List RecordKind := [.head, .pull, .push, .metadata, .manifest, .intent, .resolution, .snapshot]

def RecordKind.text : RecordKind → String
  | head => "head"
  | pull => "pull"
  | push => "push"
  | metadata => "meta"
  | manifest => "manifest"
  | intent => "intent"
  | resolution => "resolution"
  | snapshot => "snapshot"

/-- The member of the union that the literal `r` selects. -/
def decodeMember (value : Json) : RecordKind → Option FloorLogRecord
  | .head => do
    let head ← field value "head" decodeChainHead
    pure (.head head)
  | .pull => do
    let head ← field value "head" decodeChainHead
    let environmentId ← field value "environmentId" resourceId?
    let environment ← field value "environment" decodeEnvironmentFloor
    pure (.pull head environmentId environment)
  | .push => do
    let head ← field value "head" decodeChainHead
    let environmentId ← field value "environmentId" resourceId?
    let variableId ← field value "variableId" resourceId?
    let floor ← field value "variable" decodeVariableFloor
    pure (.push head environmentId variableId floor)
  | .metadata => do
    let head ← field value "head" decodeChainHead
    let environmentId ← field value "environmentId" resourceId?
    let observedEpoch ← field value "observedEpoch" positiveInt?
    let side ← decodeMetaSide value
    let manifest ← field value "manifest" decodeManifestFloor
    pure (.metadata head environmentId observedEpoch side manifest)
  | .manifest => do
    let head ← field value "head" decodeChainHead
    let environmentId ← field value "environmentId" resourceId?
    let manifest ← field value "manifest" decodeManifestFloor
    pure (.manifest head environmentId manifest)
  | .intent => do
    let intent ← field value "intent" decodeIntent
    pure (.intent intent)
  | .resolution => do
    let intentId ← field value "intentId" intentId?
    let outcome ← field value "outcome" (literal? FloorIntentOutcome.text outcomes)
    pure (.resolution intentId outcome)
  | .snapshot => do
    let folded ← field value "folded" natural?
    let state ← field value "state" decodeSnapshotState
    pure (.snapshot folded state)

attribute [grind =] decodeMember

def decodeLogRecord (value : Json) : Option FloorLogRecord := do
  let kind ← field value "r" (literal? RecordKind.text recordKinds)
  decodeMember value kind

/-! ## Encoding -/

def naturalJson (n : Natural) : Json := .ofNat n.1

def positiveJson (n : PositiveInt) : Json := .ofNat n.1

def textJson {p : JsString → Prop} (s : { s : JsString // p s }) : Json := .str s.1

def idJson (id : ResourceId) : Json := .str id.text

def nullOrJson {T : Type} (encode : T → Json) (value : Option T) : Json := value.elim .null encode

def recordJson {T : Type} (encode : T → Json) (r : Record ResourceId T) : Json :=
  .obj (r.entries.map fun e => (e.1.text, encode e.2))

def chainHeadJson (head : ChainHeadFloor) : Json :=
  .object [("seq", positiveJson head.seq), ("hashHex", textJson head.hashHex)]

def metaSideFields (side : MetaSide) : List (String × Json) :=
  [("metaVersion", positiveJson side.metaVersion), ("metaSigHashHex", textJson side.metaSigHashHex)]

def variableFloorJson : VariableFloor → Json
  | .active value side =>
    .object ([("status", .str (lit "active")), ("version", positiveJson value.version),
      ("epoch", positiveJson value.epoch), ("valueSigHashHex", textJson value.valueSigHashHex)] ++ metaSideFields side)
  | .declared side => .object (("status", .str (lit "declared")) :: metaSideFields side)
  | .deleted side => .object (("status", .str (lit "deleted")) :: metaSideFields side)

def manifestFloorJson (manifest : ManifestFloor) : Json :=
  .object [("manifestVersion", positiveJson manifest.manifestVersion), ("epoch", positiveJson manifest.epoch),
    ("manifestSigHashHex", textJson manifest.manifestSigHashHex)]

def environmentFloorJson (floor : EnvironmentFloor) : Json :=
  .object ([("pullEpoch", naturalJson floor.pullEpoch), ("observedEpoch", naturalJson floor.observedEpoch),
      ("metaVersion", .ofNat floor.metaVersion), ("metaSigHashHex", .str floor.metaSigHashHex)] ++
    (floor.manifest.elim [] fun manifest => [("manifest", manifestFloorJson manifest)]) ++
    [("variables", recordJson variableFloorJson floor.variableFloors)])

def conflictJson (conflict : FloorConflict) : Json :=
  .object [("kind", .str (lit conflict.kind.text)), ("environmentId", nullOrJson idJson conflict.environmentId),
    ("variableId", nullOrJson idJson conflict.variableId), ("firstVersion", naturalJson conflict.firstVersion),
    ("firstHashHex", .str conflict.firstHashHex), ("secondVersion", naturalJson conflict.secondVersion),
    ("secondHashHex", .str conflict.secondHashHex)]

def intentJson : FloorIntent → Json
  | .manifest intent =>
    .object [("id", textJson intent.id), ("op", .str (lit intent.op.text)),
      ("environmentId", idJson intent.environmentId), ("epoch", positiveJson intent.epoch),
      ("dekCommitmentHex", nullOrJson textJson intent.dekCommitmentHex),
      ("variableId", nullOrJson idJson intent.variableId),
      ("manifestVersion", positiveJson intent.manifestVersion),
      ("manifestSigHashHex", textJson intent.manifestSigHashHex), ("declaredHead", chainHeadJson intent.declaredHead)]
  | .deletion intent =>
    .object [("id", textJson intent.id), ("op", .str (lit "delete_environment")),
      ("environmentId", idJson intent.environmentId), ("declaredHead", chainHeadJson intent.declaredHead)]

def snapshotStateJson (state : SnapshotState) : Json :=
  .object [("chainHead", nullOrJson chainHeadJson state.chainHead),
    ("environments", recordJson environmentFloorJson state.environments),
    ("conflicts", .arr (state.conflicts.map conflictJson)), ("intents", .arr (state.intents.map intentJson))]

def scopedFields (kind : RecordKind) (head : ChainHeadFloor) (environmentId : EnvironmentId) : List (String × Json) :=
  [("r", .str (lit kind.text)), ("head", chainHeadJson head), ("environmentId", idJson environmentId)]

/-- The value that `encodeRecord` writes. -/
def logRecordJson : FloorLogRecord → Json
  | .head head => .object [("r", .str (lit RecordKind.head.text)), ("head", chainHeadJson head)]
  | .pull head environmentId environment =>
    .object (scopedFields .pull head environmentId ++ [("environment", environmentFloorJson environment)])
  | .push head environmentId variableId floor =>
    .object (scopedFields .push head environmentId ++
      [("variableId", idJson variableId), ("variable", variableFloorJson floor)])
  | .metadata head environmentId observedEpoch side manifest =>
    .object (scopedFields .metadata head environmentId ++ [("observedEpoch", positiveJson observedEpoch)] ++
      metaSideFields side ++ [("manifest", manifestFloorJson manifest)])
  | .manifest head environmentId manifest =>
    .object (scopedFields .manifest head environmentId ++ [("manifest", manifestFloorJson manifest)])
  | .intent intent => .object [("r", .str (lit RecordKind.intent.text)), ("intent", intentJson intent)]
  | .resolution intentId outcome =>
    .object [("r", .str (lit RecordKind.resolution.text)), ("intentId", textJson intentId),
      ("outcome", .str (lit outcome.text))]
  | .snapshot folded state =>
    .object [("r", .str (lit RecordKind.snapshot.text)), ("folded", naturalJson folded),
      ("state", snapshotStateJson state)]

attribute [grind =] logRecordJson

/-! ## Round trips -/

@[simp] theorem natural?_naturalJson (n : Natural) : natural? (naturalJson n) = some n := by
  obtain ⟨n, h⟩ := n
  simp [natural?, naturalJson, Json.ofNat, h]

@[simp] theorem natural?_ofNat (n : PositiveInt) : natural? (.ofNat n.1) = some n.toNatural :=
  natural?_naturalJson n.toNatural

@[simp] theorem positiveInt?_positiveJson (n : PositiveInt) : positiveInt? (positiveJson n) = some n := by
  simp [positiveInt?, positiveJson, PositiveInt.toNatural, n.2.1]

theorem matching?_str {p : JsString → Bool} (s : { s : JsString // p s = true }) : matching? p (.str s.1) = some s := by
  simp [matching?, s.2]

@[simp] theorem hashHex?_textJson (s : HashHex) : hashHex? (textJson s) = some s := matching?_str s

@[simp] theorem intentId?_textJson (s : IntentId) : intentId? (textJson s) = some s := matching?_str s

@[simp] theorem resourceId?_idJson (id : ResourceId) : resourceId? (idJson id) = some id := by
  simp [resourceId?, idJson, id.valid]

theorem nullOr?_nullOrJson {T : Type} {decode : Json → Option T} {encode : T → Json}
    (hnull : ∀ t, encode t ≠ .null) (h : ∀ t, decode (encode t) = some t) (value : Option T) :
    nullOr? decode (nullOrJson encode value) = some value := by
  cases value with
  | none => rfl
  | some t =>
    have ht := h t
    have hnot := hnull t
    simp only [nullOrJson, Option.elim_some]
    cases he : encode t with
    | null => exact absurd he hnot
    | _ => rw [he] at ht; simp [nullOr?, ht]

theorem textJson_ne_null {p : JsString → Prop} (s : { s : JsString // p s }) : textJson s ≠ .null := by simp [textJson]

theorem idJson_ne_null (id : ResourceId) : idJson id ≠ .null := by simp [idJson]

theorem chainHeadJson_ne_null (head : ChainHeadFloor) : chainHeadJson head ≠ .null := by simp [chainHeadJson, Json.object]

theorem mapM_map_some {T U : Type} (decode : U → Option T) (encode : T → U) (l : List T)
    (h : ∀ t ∈ l, decode (encode t) = some t) : (l.map encode).mapM decode = some l := by
  induction l with
  | nil => rfl
  | cons t rest ih => simp [h t (by simp), ih fun u hu => h u (by simp [hu])]

theorem array?_arr {T : Type} (decode : Json → Option T) (encode : T → Json) (l : List T)
    (h : ∀ t, decode (encode t) = some t) : array? decode (.arr (l.map encode)) = some l := by
  simp [array?, mapM_map_some decode encode l fun t _ => h t]

theorem record?_recordJson {T : Type} (decode : Json → Option T) (encode : T → Json) (r : Record ResourceId T)
    (h : ∀ t, decode (encode t) = some t) : record? decode (recordJson encode r) = some r := by
  have hkeys : (r.entries.map fun e => (e.1.text, encode e.2)).map Prod.fst = (r.entries.map Prod.fst).map ResourceId.text := by
    simp
  have hentries : (Record.ofEntries (r.entries.map fun e => (e.1.text, encode e.2))).entries =
      r.entries.map fun e => (e.1.text, encode e.2) := by
    apply Record.entries_ofEntries
    · rw [hkeys]
      exact r.nodup.map (PropertyKey.text_inj (K := ResourceId))
    · rw [hkeys]
      exact List.pairwise_map.mpr r.inOrder
  have hdecode : (r.entries.map fun e => (e.1.text, encode e.2)).mapM
      (fun e => do let id ← resourceId? (.str e.1); let value ← decode e.2; pure (id, value)) = some r.entries := by
    apply mapM_map_some
    intro e _
    have hid := resourceId?_idJson e.1
    simp only [idJson] at hid
    simp [hid, h e.2]
  simp only [record?, recordJson]
  rw [hentries, hdecode]
  simp

attribute [local simp] field Json.find? Json.object List.lookup_cons lit isLiteral

theorem decodeChainHead_json (head : ChainHeadFloor) : decodeChainHead (chainHeadJson head) = some head := by
  simp [decodeChainHead, chainHeadJson]

theorem decodeVariableFloor_json (floor : VariableFloor) : decodeVariableFloor (variableFloorJson floor) = some floor := by
  cases floor <;> simp [decodeVariableFloor, variableFloorJson, metaSideFields, decodeMetaSide]

theorem decodeManifestFloor_json (manifest : ManifestFloor) :
    decodeManifestFloor (manifestFloorJson manifest) = some manifest := by
  simp [decodeManifestFloor, manifestFloorJson]

theorem decodeEnvironmentSide_json (floor : EnvironmentFloor) :
    decodeEnvironmentSide (environmentFloorJson floor) = some floor.side := by
  obtain ⟨pullEpoch, observedEpoch, side, manifest, variableFloors⟩ := floor
  cases side with
  | none =>
    have hzero : natural? (.ofNat 0) = some ⟨0, Nat.zero_le _⟩ := natural?_naturalJson 0
    cases manifest <;>
      simp [decodeEnvironmentSide, environmentFloorJson, EnvironmentFloor.metaVersion, EnvironmentFloor.metaSigHashHex,
        hzero]
  | some side =>
    have hhash := hashHex?_textJson side.metaSigHashHex
    simp only [textJson] at hhash
    cases manifest <;>
      simp [decodeEnvironmentSide, environmentFloorJson, EnvironmentFloor.metaVersion, EnvironmentFloor.metaSigHashHex,
        hhash, PositiveInt.toNatural, side.metaVersion.2.1]

theorem decodeManifestKey_json (floor : EnvironmentFloor) :
    decodeManifestKey (environmentFloorJson floor) = some floor.manifest := by
  obtain ⟨pullEpoch, observedEpoch, side, manifest, variableFloors⟩ := floor
  cases manifest <;> simp [decodeManifestKey, environmentFloorJson, decodeManifestFloor_json]

theorem decodeEnvironmentFloor_json (floor : EnvironmentFloor) :
    decodeEnvironmentFloor (environmentFloorJson floor) = some floor := by
  have hside := decodeEnvironmentSide_json floor
  have hmanifest := decodeManifestKey_json floor
  have hrecord := record?_recordJson decodeVariableFloor variableFloorJson floor.variableFloors decodeVariableFloor_json
  unfold decodeEnvironmentFloor
  rw [hside, hmanifest]
  obtain ⟨pullEpoch, observedEpoch, side, manifest, variableFloors⟩ := floor
  cases manifest <;> simp [environmentFloorJson, hrecord]

theorem literal?_kind (kind : ConflictKind) :
    literal? ConflictKind.text conflictKinds (.str (lit kind.text)) = some kind := by
  cases kind <;> decide

theorem literal?_op (op : ManifestIntentOp) :
    literal? ManifestIntentOp.text manifestIntentOps (.str (lit op.text)) = some op := by
  cases op <;> decide

theorem literal?_outcome (outcome : FloorIntentOutcome) :
    literal? FloorIntentOutcome.text outcomes (.str (lit outcome.text)) = some outcome := by
  cases outcome <;> decide

theorem literal?_record (kind : RecordKind) : literal? RecordKind.text recordKinds (.str (lit kind.text)) = some kind := by
  cases kind <;> decide

theorem nullOr?_resourceId (id : Option ResourceId) : nullOr? resourceId? (nullOrJson idJson id) = some id :=
  nullOr?_nullOrJson idJson_ne_null resourceId?_idJson id

theorem nullOr?_hashHex (hash : Option HashHex) : nullOr? hashHex? (nullOrJson textJson hash) = some hash :=
  nullOr?_nullOrJson textJson_ne_null hashHex?_textJson hash

theorem nullOr?_chainHead (head : Option ChainHeadFloor) :
    nullOr? decodeChainHead (nullOrJson chainHeadJson head) = some head :=
  nullOr?_nullOrJson chainHeadJson_ne_null decodeChainHead_json head

theorem decodeConflict_json (conflict : FloorConflict) : decodeConflict (conflictJson conflict) = some conflict := by
  have hkind := literal?_kind conflict.kind
  unfold lit at hkind
  simp [decodeConflict, conflictJson, hkind, nullOr?_resourceId]

theorem decodeIntent_json (intent : FloorIntent) : decodeIntent (intentJson intent) = some intent := by
  cases intent with
  | manifest intent =>
    have hop := literal?_op intent.op
    have hother : lit intent.op.text ≠ lit "delete_environment" := by cases intent.op <;> decide
    unfold lit at hop
    simp [decodeIntent, intentJson, decodeManifestIntent, hop, nullOr?_resourceId, nullOr?_hashHex, decodeChainHead_json]
    simpa using hother
  | deletion intent =>
    simp [decodeIntent, intentJson, decodeDeletionIntent, decodeChainHead_json]

theorem decodeSnapshotState_json (state : SnapshotState) : decodeSnapshotState (snapshotStateJson state) = some state := by
  have hconflicts := array?_arr decodeConflict conflictJson state.conflicts decodeConflict_json
  have hintents := array?_arr decodeIntent intentJson state.intents decodeIntent_json
  have henvironments :=
    record?_recordJson decodeEnvironmentFloor environmentFloorJson state.environments decodeEnvironmentFloor_json
  simp [decodeSnapshotState, snapshotStateJson, nullOr?_chainHead, hconflicts, hintents, henvironments]

theorem decodeLogRecord_of_kind {value : Json} (kind : RecordKind) (h : value.find? "r" = some (.str (lit kind.text))) :
    decodeLogRecord value = decodeMember value kind := by
  unfold decodeLogRecord field
  rw [h, Option.bind_some, literal?_record]
  rfl

theorem decodeLogRecord_json (record : FloorLogRecord) : decodeLogRecord (logRecordJson record) = some record := by
  cases record with
  | head head =>
    rw [decodeLogRecord_of_kind .head (by simp [logRecordJson])]
    simp [decodeMember, logRecordJson, decodeChainHead_json]
  | pull head environmentId environment =>
    rw [decodeLogRecord_of_kind .pull (by simp [logRecordJson, scopedFields])]
    simp [decodeMember, logRecordJson, scopedFields, decodeChainHead_json, decodeEnvironmentFloor_json]
  | push head environmentId variableId floor =>
    rw [decodeLogRecord_of_kind .push (by simp [logRecordJson, scopedFields])]
    simp [decodeMember, logRecordJson, scopedFields, decodeChainHead_json, decodeVariableFloor_json]
  | metadata head environmentId observedEpoch side manifest =>
    rw [decodeLogRecord_of_kind .metadata (by simp [logRecordJson, scopedFields, metaSideFields])]
    simp [decodeMember, logRecordJson, scopedFields, metaSideFields, decodeMetaSide, decodeChainHead_json,
      decodeManifestFloor_json]
  | manifest head environmentId manifest =>
    rw [decodeLogRecord_of_kind .manifest (by simp [logRecordJson, scopedFields])]
    simp [decodeMember, logRecordJson, scopedFields, decodeChainHead_json, decodeManifestFloor_json]
  | intent intent =>
    rw [decodeLogRecord_of_kind .intent (by simp [logRecordJson])]
    simp [decodeMember, logRecordJson, decodeIntent_json]
  | resolution intentId outcome =>
    have houtcome := literal?_outcome outcome
    rw [decodeLogRecord_of_kind .resolution (by simp [logRecordJson])]
    unfold lit at houtcome
    simp [decodeMember, logRecordJson, houtcome]
  | snapshot folded state =>
    rw [decodeLogRecord_of_kind .snapshot (by simp [logRecordJson])]
    simp [decodeMember, logRecordJson, decodeSnapshotState_json]

end Maruhi.Floor
