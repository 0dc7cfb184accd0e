import Maruhi.Audit.Head
import Maruhi.Lib.Base64

/-!
# The tables of a project (`do-schema.ts`)

Rows by their rowid, and the triggers that count mutations.
-/

open Text

namespace Maruhi.Snapshot

/-- `PROJECT_DO_BASE_TABLES` -/
inductive TableName
  | chainEntries
  | environments
  | variableRows
  | variableMetaStatements
  | environmentMetaStatements
  | variableVersions
  | dekWraps
  | auditEvents
  | leaseWindows
  | leaseBindings
  | environmentManifests
  | environmentCheckpoints
  | checkpointSnapshotValues
  | auditHeadHashes
  | headAttestations
  | attestationWindows
  | projectSettings
  | rotationProposals
  | rotationProposalVariables
  | rotationProposalWraps
  deriving DecidableEq, Repr

def tableText : TableName → JsString
  | .chainEntries => lit "chain_entries"
  | .environments => lit "environments"
  | .variableRows => lit "variables"
  | .variableMetaStatements => lit "variable_meta_statements"
  | .environmentMetaStatements => lit "environment_meta_statements"
  | .variableVersions => lit "variable_versions"
  | .dekWraps => lit "dek_wraps"
  | .auditEvents => lit "audit_events"
  | .leaseWindows => lit "lease_windows"
  | .leaseBindings => lit "lease_bindings"
  | .environmentManifests => lit "environment_manifests"
  | .environmentCheckpoints => lit "environment_checkpoints"
  | .checkpointSnapshotValues => lit "checkpoint_snapshot_values"
  | .auditHeadHashes => lit "audit_head_hashes"
  | .headAttestations => lit "head_attestations"
  | .attestationWindows => lit "attestation_windows"
  | .projectSettings => lit "project_settings"
  | .rotationProposals => lit "rotation_proposals"
  | .rotationProposalVariables => lit "rotation_proposal_variables"
  | .rotationProposalWraps => lit "rotation_proposal_wraps"

/-- `PROJECT_DO_TABLES` -/
def projectDoTables : List TableName :=
  [.chainEntries, .environments, .variableRows, .variableMetaStatements, .environmentMetaStatements, .variableVersions,
    .dekWraps, .auditEvents, .leaseWindows, .leaseBindings, .environmentManifests, .environmentCheckpoints,
    .checkpointSnapshotValues, .auditHeadHashes, .headAttestations, .attestationWindows, .projectSettings,
    .rotationProposals, .rotationProposalVariables, .rotationProposalWraps]

/-- The known table of a name. -/
def tableNamed (text : JsString) : Option TableName := projectDoTables.find? fun t => tableText t = text

theorem tableNamed_text (t : TableName) : tableNamed (tableText t) = some t := by cases t <;> rfl

theorem tableText_inj {t u : TableName} (h : tableText t = tableText u) : t = u := by
  have := congrArg tableNamed h
  rw [tableNamed_text, tableNamed_text] at this
  exact Option.some.inj this

/-- `MUTATION_UNTRACKED_TABLES` leaves these out of the counter. -/
def isMutationTracked : TableName → Bool
  | .auditEvents | .auditHeadHashes | .leaseWindows | .leaseBindings | .attestationWindows => false
  | _ => true

/-- `READ_PATH_AUDIT_EVENTS` -/
def readPathAuditEvents : List JsString :=
  [lit "var.read", lit "server.lease_issued", lit "server.lease_denied", lit "server.dek_unwrapped",
    lit "server.value_decrypted", lit "project.exported"]

/-! ## Rows -/

/-- A value of a column. -/
inductive Scalar (N : Type)
  | null
  | num (n : N)
  | str (s : JsString)
  | blob (bytes : Bytes)
  deriving DecidableEq

structure Row (N : Type) where
  rowid : Nat
  values : List (Scalar N)
  deriving DecidableEq

structure Table (N : Type) where
  columns : List JsString
  rows : List (Row N)
  ordered : rows.Pairwise fun row later => row.rowid < later.rowid

variable {N : Type}

namespace Table

def empty (columns : List JsString) : Table N := ⟨columns, [], List.Pairwise.nil⟩

def get? (table : Table N) (rowid : Nat) : Option (Row N) := table.rows.find? fun row => row.rowid = rowid

/-- The rows without one rowid. -/
def erase (table : Table N) (rowid : Nat) : Table N where
  columns := table.columns
  rows := table.rows.filter fun row => row.rowid ≠ rowid
  ordered := table.ordered.filter _

/-- The row in its place. -/
def put (table : Table N) (row : Row N) : Table N where
  columns := table.columns
  rows := table.rows.filter (fun other => other.rowid < row.rowid) ++
    row :: table.rows.filter fun other => row.rowid < other.rowid
  ordered := by
    refine List.pairwise_append.mpr ⟨table.ordered.filter _, List.pairwise_cons.mpr ⟨?_, table.ordered.filter _⟩, ?_⟩
    · intro later hlater
      simpa using (List.mem_filter.mp hlater).2
    · intro other hother later hlater
      have hbefore : other.rowid < row.rowid := by simpa using (List.mem_filter.mp hother).2
      rcases List.mem_cons.mp hlater with rfl | hlater
      · exact hbefore
      · have hafter : row.rowid < later.rowid := by simpa using (List.mem_filter.mp hlater).2
        omega

/-- `MAX(rowid)`, 0 on an empty table: `seq` is the rowid where it is the key. -/
def maxRowid (table : Table N) : Nat := (table.rows.getLast?.map Row.rowid).getD 0

/-- A row's value in a column. -/
def column (table : Table N) (row : Row N) (name : JsString) : Option (Scalar N) :=
  (table.columns.zip row.values).lookup name

theorem rowid_le_maxRowid {table : Table N} {row : Row N} (h : row ∈ table.rows) : row.rowid ≤ table.maxRowid := by
  have hordered := table.ordered
  unfold maxRowid
  rcases List.eq_nil_or_concat table.rows with hnil | ⟨front, last, hrows⟩
  · simp [hnil] at h
  · rw [List.concat_eq_append] at hrows
    rw [hrows] at h hordered ⊢
    rw [List.getLast?_append_of_ne_nil _ (by simp)]
    simp only [List.getLast?_singleton, Option.map_some, Option.getD_some]
    rcases List.mem_append.mp h with h | h
    · exact Nat.le_of_lt ((List.pairwise_append.mp hordered).2.2 row h last (by simp))
    · rw [List.mem_singleton.mp h]

theorem rows_put {table : Table N} {row : Row N} (h : ∀ other ∈ table.rows, other.rowid < row.rowid) :
    (table.put row).rows = table.rows ++ [row] := by
  have hbefore : table.rows.filter (fun other => other.rowid < row.rowid) = table.rows :=
    List.filter_eq_self.mpr fun other hother => by simpa using h other hother
  have hafter : (table.rows.filter fun other => row.rowid < other.rowid) = [] := by
    refine List.filter_eq_nil_iff.mpr fun other hother => ?_
    have := h other hother
    simp only [decide_eq_true_eq]
    omega
  show table.rows.filter (fun other => other.rowid < row.rowid) ++
    row :: table.rows.filter (fun other => row.rowid < other.rowid) = table.rows ++ [row]
  rw [hbefore, hafter]

end Table

/-! ## The store -/

/-- The tables, the mutation counter and the recorded schema version. -/
structure ProjectDb (N : Type) where
  tables : TableName → Table N
  mutationSeq : Nat
  schemaVersion : Nat

namespace ProjectDb

def setTable (db : ProjectDb N) (name : TableName) (table : Table N) : ProjectDb N :=
  { db with tables := fun other => if other = name then table else db.tables other }

/-- `mutation_state` after a trigger. -/
def bump (db : ProjectDb N) : ProjectDb N := { db with mutationSeq := db.mutationSeq + 1 }

@[simp] theorem setTable_self (db : ProjectDb N) (name : TableName) (table : Table N) :
    (db.setTable name table).tables name = table := by simp [setTable]

theorem setTable_ne (db : ProjectDb N) {name other : TableName} (h : other ≠ name) (table : Table N) :
    (db.setTable name table).tables other = db.tables other := by simp [setTable, h]

@[simp] theorem setTable_mutationSeq (db : ProjectDb N) (name : TableName) (table : Table N) :
    (db.setTable name table).mutationSeq = db.mutationSeq := rfl

@[simp] theorem setTable_schemaVersion (db : ProjectDb N) (name : TableName) (table : Table N) :
    (db.setTable name table).schemaVersion = db.schemaVersion := rfl

@[simp] theorem bump_tables (db : ProjectDb N) : db.bump.tables = db.tables := rfl

@[simp] theorem bump_mutationSeq (db : ProjectDb N) : db.bump.mutationSeq = db.mutationSeq + 1 := rfl

@[simp] theorem bump_schemaVersion (db : ProjectDb N) : db.bump.schemaVersion = db.schemaVersion := rfl

end ProjectDb

/-- The columns of `PROJECT_DO_DDL`. -/
def ddlColumns : TableName → List JsString
  | .chainEntries => [lit "seq", lit "entry_json", lit "entry_hash_hex", lit "canonical_bytes"]
  | .environments =>
    [lit "environment_id", lit "name", lit "latest_meta_version", lit "created_at", lit "deleted_at"]
  | .variableRows =>
    [lit "environment_id", lit "variable_id", lit "name", lit "latest_meta_version", lit "latest_version",
      lit "created_at", lit "deleted_at"]
  | .variableMetaStatements =>
    [lit "environment_id", lit "variable_id", lit "meta_version", lit "suite", lit "name", lit "status",
      lit "prev_meta_sig_hash_hex", lit "chain_head_hash_hex", lit "chain_head_seq", lit "signature_hex",
      lit "signed_bytes_hash_hex", lit "author_user_id", lit "author_key_fingerprint", lit "created_at",
      lit "layout_version", lit "var_type", lit "required", lit "description", lit "max_age_days"]
  | .environmentMetaStatements =>
    [lit "environment_id", lit "meta_version", lit "suite", lit "name", lit "status", lit "prev_meta_sig_hash_hex",
      lit "chain_head_hash_hex", lit "chain_head_seq", lit "signature_hex", lit "signed_bytes_hash_hex",
      lit "author_user_id", lit "author_key_fingerprint", lit "created_at"]
  | .variableVersions =>
    [lit "environment_id", lit "variable_id", lit "version", lit "suite", lit "epoch", lit "nonce_hex",
      lit "ciphertext_hex", lit "ciphertext_bytes", lit "prev_value_sig_hash_hex", lit "chain_head_hash_hex",
      lit "chain_head_seq", lit "signature_hex", lit "signed_bytes_hash_hex", lit "writer_user_id",
      lit "writer_key_fingerprint", lit "created_at"]
  | .dekWraps =>
    [lit "environment_id", lit "epoch", lit "recipient_user_id", lit "suite", lit "recipient_enc_pub_hex",
      lit "enc_hex", lit "ciphertext_hex", lit "signature_hex", lit "signer_user_id", lit "signer_key_fingerprint",
      lit "created_at", lit "recipient_class"]
  | .auditEvents =>
    [lit "seq", lit "server_ts", lit "client_ts", lit "event", lit "actor_type", lit "actor_user_id",
      lit "actor_key_fingerprint", lit "actor_api_token_id", lit "target_user_id", lit "target_key_fingerprint",
      lit "environment_id", lit "variable_id", lit "epoch", lit "version", lit "chain_seq", lit "payload",
      lit "row_id"]
  | .leaseWindows => [lit "kind", lit "window_start", lit "count"]
  | .leaseBindings => [lit "binding_key_hex", lit "ephemeral_pub_hex", lit "expires_at"]
  | .environmentManifests =>
    [lit "environment_id", lit "manifest_version", lit "suite", lit "epoch", lit "variables_digest_hex",
      lit "env_meta_version", lit "env_meta_sig_hash_hex", lit "prev_manifest_sig_hash_hex",
      lit "chain_head_hash_hex", lit "chain_head_seq", lit "signature_hex", lit "signed_bytes_hash_hex",
      lit "issuer_user_id", lit "issuer_key_fingerprint", lit "created_at"]
  | .environmentCheckpoints =>
    [lit "environment_id", lit "chain_seq", lit "entry_hash_hex", lit "epoch", lit "manifest_version",
      lit "manifest_sig_hash_hex", lit "values_digest_hex", lit "updated_at"]
  | .checkpointSnapshotValues => [lit "environment_id", lit "variable_id", lit "version", lit "value_sig_hash_hex"]
  | .auditHeadHashes => [lit "seq", lit "head_hash_hex"]
  | .headAttestations =>
    [lit "attester_user_id", lit "attester_key_fingerprint", lit "suite", lit "chain_head_seq",
      lit "chain_head_hash_hex", lit "signature_hex", lit "accepted_at"]
  | .attestationWindows => [lit "attester_user_id", lit "window_start", lit "count"]
  | .projectSettings => [lit "id", lit "schema_policy"]
  | .rotationProposals =>
    [lit "proposal_id", lit "environment_id", lit "connector", lit "facts_json", lit "claims_digest_hex",
      lit "grant_chain_seq", lit "created_at", lit "expires_at"]
  | .rotationProposalVariables => [lit "proposal_id", lit "variable_id", lit "base_version", lit "position"]
  | .rotationProposalWraps =>
    [lit "proposal_id", lit "variable_id", lit "recipient_user_id", lit "recipient_enc_pub_hex", lit "enc_hex",
      lit "ciphertext_hex"]

/-- A new project: the base of `PROJECT_DO_MIGRATIONS`, at `PROJECT_DO_BASE_VERSION`. -/
def baseDb : ProjectDb N := ⟨fun name => Table.empty (ddlColumns name), 0, 9⟩

/-! ## Row changes -/

/-- What a statement does to one row. -/
inductive Change (N : Type)
  | insert (table : TableName) (row : Row N)
  | update (table : TableName) (rowid : Nat) (row : Row N)
  | delete (table : TableName) (rowid : Nat)

def Change.table : Change N → TableName
  | .insert table _ => table
  | .update table _ _ => table
  | .delete table _ => table

/-- Whether there is a row for it to change. -/
def Change.applies (db : ProjectDb N) : Change N → Bool
  | .insert table row => ((db.tables table).get? row.rowid).isNone
  | .update table rowid row =>
    ((db.tables table).get? rowid).isSome && (row.rowid = rowid || ((db.tables table).get? row.rowid).isNone)
  | .delete table rowid => ((db.tables table).get? rowid).isSome

/-- `mutationTriggers`, and `auditWriteTrigger` on a row that no read appends. -/
def Change.fires (db : ProjectDb N) : Change N → Bool
  | .insert .auditEvents row =>
    match (db.tables .auditEvents).column row (lit "event") with
    | some (.str event) => !readPathAuditEvents.contains event
    | _ => false
  | change => isMutationTracked change.table

def Change.written (table : Table N) : Change N → Table N
  | .insert _ row => table.put row
  | .update _ rowid row => (table.erase rowid).put row
  | .delete _ rowid => table.erase rowid

def Change.apply (db : ProjectDb N) (change : Change N) : ProjectDb N :=
  if change.applies db then
    let after := db.setTable change.table (change.written (db.tables change.table))
    if change.fires db then after.bump else after
  else db

theorem Change.apply_tables_ne (db : ProjectDb N) (change : Change N) {name : TableName} (h : name ≠ change.table) :
    (change.apply db).tables name = db.tables name := by
  unfold Change.apply
  dsimp only
  split_ifs
  · rw [ProjectDb.bump_tables, db.setTable_ne h]
  · rw [db.setTable_ne h]
  · rfl

theorem Change.apply_mutationSeq (db : ProjectDb N) (change : Change N) :
    (change.apply db).mutationSeq = db.mutationSeq + if change.applies db && change.fires db then 1 else 0 := by
  unfold Change.apply
  dsimp only
  split_ifs <;> simp_all

@[simp] theorem Change.apply_schemaVersion (db : ProjectDb N) (change : Change N) :
    (change.apply db).schemaVersion = db.schemaVersion := by
  unfold Change.apply
  dsimp only
  split_ifs <;> rfl

theorem Change.fires_of_tracked (db : ProjectDb N) (change : Change N) (h : isMutationTracked change.table = true) :
    change.fires db = true := by
  cases change with
  | insert table row =>
    cases table with
    | auditEvents => exact absurd h (by simp [Change.table, isMutationTracked])
    | _ => exact h
  | update table rowid row => cases table <;> exact h
  | delete table rowid => cases table <;> exact h

theorem Change.tables_of_quiet {db : ProjectDb N} {change : Change N}
    (hquiet : (change.apply db).mutationSeq = db.mutationSeq) {name : TableName} (h : isMutationTracked name = true) :
    (change.apply db).tables name = db.tables name := by
  by_cases hname : name = change.table
  · subst hname
    have hfires := change.fires_of_tracked db h
    rw [Change.apply_mutationSeq, hfires] at hquiet
    have happlies : change.applies db = false := by
      by_contra hne
      rw [Bool.not_eq_false] at hne
      simp [hne] at hquiet
    rw [Change.apply, happlies]
    rfl
  · exact change.apply_tables_ne db hname

end Maruhi.Snapshot
