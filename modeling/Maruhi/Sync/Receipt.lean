import Maruhi.Lib.Framing
import Maruhi.Lib.Json
import Maruhi.Lib.OrderedMap
import Maruhi.Lib.Record
import Maruhi.Lib.TextOrder
import Mathlib.Data.List.Sort

/-!
# The sync receipt (`sync-receipt.ts`)

Names and versions, written as JSON and read back.
-/

open Text

namespace Maruhi.Sync

/-- `PRESET_IDS` -/
inductive PresetId
  | cloudflareWorkers
  | vercel
  | netlify
  | githubActions
  deriving DecidableEq, Repr

def presetName : PresetId → JsString
  | .cloudflareWorkers => lit "cloudflare-workers"
  | .vercel => lit "vercel"
  | .netlify => lit "netlify"
  | .githubActions => lit "github-actions"

def presetIds : List PresetId := [.cloudflareWorkers, .vercel, .netlify, .githubActions]

def presetOf (name : JsString) : Option PresetId := presetIds.find? fun id => presetName id = name

/-- `versions` is the `variables` of the source. -/
structure SyncReceipt where
  target : JsString
  preset : PresetId
  syncedAt : JsString
  versions : OrderedMap JsString Nat
  deriving DecidableEq

def receiptVersion? (value : Json) : Option Nat := value.safeNat?.filter fun n => 1 ≤ n

/-- The receipt, or why the text is none. The text stands parsed. -/
def decodeReceipt (record : Json) (expectedTarget : JsString) : Except String SyncReceipt :=
  match record with
  | .obj _ =>
    if (record.get "version").nat? ≠ some 1 then .error "unsupported receipt version (expected 1)"
    else if (record.get "target").str? ≠ some expectedTarget then .error "the receipt names a different target"
    else match (record.get "preset").str?.bind presetOf with
    | none => .error "unknown preset"
    | some preset =>
      match (record.get "syncedAt").str? with
      | none => .error "syncedAt must be a string"
      | some syncedAt =>
        match record.get "variables" with
        | .obj fields =>
          match (OrderedMap.ofEntries fields).entries.mapM fun e => (receiptVersion? e.2).map fun version => (e.1, version) with
          | none => .error "variables must map names to positive integer versions"
          | some versions =>
            .ok { target := expectedTarget, preset, syncedAt, versions := .ofEntries versions }
        | _ => .error "variables must be an object of { name: version }"
  | _ => .error "the top level must be an object"

/-- `toSorted()` of names. -/
def sortedNames (names : List JsString) : List JsString := names.insertionSort (· ≤ ·)

/-- The `variables` of the file: names ascending, but an object puts integer names first. -/
def writtenVariables (receipt : SyncReceipt) : Record JsString Json :=
  .ofEntries ((sortedNames receipt.versions.keys).map fun name => (name, .ofNat ((receipt.versions.get? name).getD 0)))

/-- The file representation, before `JSON.stringify`. -/
def encodeReceipt (receipt : SyncReceipt) : Json :=
  Json.object [("version", .ofNat 1), ("target", .str receipt.target), ("preset", .str (presetName receipt.preset)),
    ("syncedAt", .str receipt.syncedAt), ("variables", .obj (writtenVariables receipt).entries)]

/-! ## What is written is read back -/

theorem presetOf_name (preset : PresetId) : presetOf (presetName preset) = some preset := by
  cases preset <;> decide

theorem receiptVersion?_ofNat {n : Nat} (h1 : 1 ≤ n) (h2 : n ≤ Json.maxSafeInteger) :
    receiptVersion? (.ofNat n) = some n := by
  rw [receiptVersion?, Json.safeNat?_ofNat h2, Option.filter_some, if_pos (by simpa using h1)]

theorem mem_sortedNames {names : List JsString} {name : JsString} : name ∈ sortedNames names ↔ name ∈ names :=
  (List.perm_insertionSort _ _).mem_iff

theorem sortedNames_nodup {names : List JsString} (h : names.Nodup) : (sortedNames names).Nodup :=
  (List.perm_insertionSort _ _).nodup_iff.mpr h

theorem get?_ofEntries_of_keys {β : Type} {names : List JsString} (h : names.Nodup) (f : JsString → β) (name : JsString) :
    (OrderedMap.ofEntries (names.map fun name => (name, f name))).get? name = if name ∈ names then some (f name) else none := by
  have hkeys : ((names.map fun name => (name, f name)).map Prod.fst).Nodup := by
    rw [List.map_map, show Prod.fst ∘ (fun name => (name, f name)) = id from rfl, List.map_id]
    exact h
  split_ifs with hmem
  · rw [← OrderedMap.mem_entries, OrderedMap.entries_ofEntries hkeys]
    exact List.mem_map.mpr ⟨name, hmem, rfl⟩
  · apply OrderedMap.get?_eq_none_of_not_mem_keys
    unfold OrderedMap.keys
    rw [OrderedMap.entries_ofEntries hkeys, List.map_map]
    simpa using hmem

theorem writtenVariables_get (receipt : SyncReceipt) (name : JsString) :
    (writtenVariables receipt).get? name = (receipt.versions.get? name).map Json.ofNat := by
  have hnodup := sortedNames_nodup receipt.versions.keys_nodup
  have hmap := get?_ofEntries_of_keys hnodup (fun name => Json.ofNat ((receipt.versions.get? name).getD 0)) name
  rw [← Record.get?_fromEntries] at hmap
  unfold Record.fromEntries at hmap
  rw [OrderedMap.entries_ofEntries (by
    rw [List.map_map, show Prod.fst ∘ (fun name => (name, Json.ofNat ((receipt.versions.get? name).getD 0))) = id from rfl,
      List.map_id]
    exact hnodup)] at hmap
  rw [writtenVariables, hmap]
  split_ifs with hmem
  · obtain ⟨n, hn⟩ := (OrderedMap.mem_keys _ _).mp (mem_sortedNames.mp hmem)
    rw [hn]
    rfl
  · cases hn : receipt.versions.get? name with
    | none => rfl
    | some n => exact absurd (mem_sortedNames.mpr ((OrderedMap.mem_keys _ _).mpr ⟨n, hn⟩)) hmem

theorem encodeReceipt_get (receipt : SyncReceipt) :
    (encodeReceipt receipt).get "version" = .ofNat 1 ∧ (encodeReceipt receipt).get "target" = .str receipt.target ∧
      (encodeReceipt receipt).get "preset" = .str (presetName receipt.preset) ∧
      (encodeReceipt receipt).get "syncedAt" = .str receipt.syncedAt ∧
      (encodeReceipt receipt).get "variables" = .obj (writtenVariables receipt).entries := by
  refine ⟨?_, ?_, ?_, ?_, ?_⟩ <;> simp [encodeReceipt, Json.get, Json.find?, Json.object, List.lookup_cons, lit]

theorem decodeReceipt_encode (receipt : SyncReceipt)
    (h : ∀ name n, receipt.versions.get? name = some n → 1 ≤ n ∧ n ≤ Json.maxSafeInteger) :
    ∃ read, decodeReceipt (encodeReceipt receipt) receipt.target = .ok read ∧ read.preset = receipt.preset ∧
      ∀ name, read.versions.get? name = receipt.versions.get? name := by
  have hwritten := writtenVariables_get receipt
  generalize hvariables : writtenVariables receipt = written at hwritten
  have hversions : written.entries.mapM
      (fun e => (receiptVersion? e.2).map fun version => (e.1, version)) =
      some (written.entries.map fun e => (e.1, (receipt.versions.get? e.1).getD 0)) := by
    rw [Framing.mapM_eq_some, List.forall₂_map_right_iff, List.forall₂_same]
    rintro ⟨name, value⟩ hentry
    have hvalue := (Record.mem_entries _ _ _).mp hentry
    rw [hwritten, Option.map_eq_some_iff] at hvalue
    obtain ⟨n, hn, rfl⟩ := hvalue
    obtain ⟨h1, h2⟩ := h name n hn
    rw [hn, Option.getD_some, receiptVersion?_ofNat h1 h2, Option.map_some]
  refine ⟨{ receipt with versions := .ofEntries (written.entries.map fun e => (e.1, (receipt.versions.get? e.1).getD 0)) },
    ?_, rfl, fun name => ?_⟩
  · obtain ⟨hversion, htarget, hpreset, hsynced, hrecord⟩ := encodeReceipt_get receipt
    have hobj : ∃ fields, encodeReceipt receipt = .obj fields := ⟨_, rfl⟩
    obtain ⟨fields, hfields⟩ := hobj
    rw [hfields] at hversion htarget hpreset hsynced hrecord ⊢
    rw [hvariables] at hrecord
    simp only [decodeReceipt, hversion, htarget, hpreset, hsynced, hrecord, Json.nat?_ofNat, Json.str?_str, ne_eq,
      not_true_eq_false, if_false, Option.bind_some, presetOf_name, OrderedMap.entries_ofEntries written.nodup, hversions]
  · dsimp only
    have hkeys : written.entries.map (fun e => (e.1, (receipt.versions.get? e.1).getD 0)) =
        written.keys.map fun name => (name, (receipt.versions.get? name).getD 0) := by
      rw [Record.keys, List.map_map]
      rfl
    have hnodup : written.keys.Nodup := written.nodup
    rw [hkeys, get?_ofEntries_of_keys hnodup]
    cases hn : receipt.versions.get? name with
    | none =>
      rw [if_neg]
      rw [Record.mem_keys, hwritten, hn]
      simp
    | some n =>
      rw [if_pos]
      · rfl
      · rw [Record.mem_keys, hwritten, hn]
        exact ⟨_, rfl⟩

end Maruhi.Sync
