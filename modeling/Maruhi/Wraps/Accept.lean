import Maruhi.Chain.KeySlots
import Maruhi.ProjectDo.Operations
import Maruhi.Proposals.Recipients

/-!
# Acceptance of DEK wraps (`dek-wraps.ts`, `recipient-set.ts`)

R(E), what the server checks of a wrap list against it, and the table the accepted lists go into.
-/

open Text

namespace Maruhi.Wraps
open Chain Proposals
open ProjectDo (maxChainEntries)

/-! ## R(E) -/

inductive WrapRecipient
  | member (member : ChainMember) (device : ChainDevice)
  | server (grant : ServerGrant)

/-- The member side of R(E)'s predicate: the person's scope and the device's. -/
def deviceReceivesEnvironment (person : ChainMember) (device : ChainDevice) (environmentId : EnvironmentId) : Bool :=
  scopeIncludesEnvironment (effectivePermissionOf person device.toDeviceCap).scope environmentId

def wrapRecipientsOf (state : MutableChainState) (environmentId : EnvironmentId) : List WrapRecipient :=
  ((memberDevicesInOrder state.members).filter fun r => deviceReceivesEnvironment r.1 r.2 environmentId).map
      (fun r => .member r.1 r.2) ++
    ((state.serverGrants.values.filter fun grant => grant.scopeEnvironmentIds.contains environmentId).insertionSort
      fun a b => a.serverKeyFingerprintHex ≤ b.serverKeyFingerprintHex).map .server

inductive DekRecipientClass
  | member
  | server
  deriving DecidableEq, Repr

def WrapRecipient.recipientClass : WrapRecipient → DekRecipientClass
  | member _ _ => .member
  | server _ => .server

/-- A member's user id, or a server key's fingerprint. -/
def WrapRecipient.id : WrapRecipient → JsString
  | member m _ => m.userId
  | server grant => grant.serverKeyFingerprintHex

def WrapRecipient.encPubHex : WrapRecipient → JsString
  | member _ device => device.encPubHex
  | server grant => grant.serverEncPubHex

def WrapRecipient.address (r : WrapRecipient) : DekRecipientClass × JsString × JsString :=
  (r.recipientClass, r.id, r.encPubHex)

/-! ## The checks -/

structure DekWrapInput where
  recipientClass : DekRecipientClass
  recipientUserId : JsString
  suite : JsString
  epoch : Nat
  recipientEncPubHex : JsString
  encHex : JsString
  ciphertextHex : JsString
  signatureHex : JsString
  deriving DecidableEq, Repr

def DekWrapInput.address (wrap : DekWrapInput) : DekRecipientClass × JsString × JsString :=
  (wrap.recipientClass, wrap.recipientUserId, wrap.recipientEncPubHex)

inductive DekWrapReason
  | recipientNotGranted
  | recipientNotMember
  | recipientKeyMismatch
  | scopeOutOfRange
  | epochOutOfRange
  | duplicateRecipient
  | recipientMissing
  deriving DecidableEq, Repr

inductive DekRejection
  | limitExceeded (limit : Nat)
  | dekWrapRejected (reason : DekWrapReason)
  | dekWrapExists (epoch : Nat) (recipientUserId storedRecipientEncPubHex : JsString)
  deriving DecidableEq, Repr

def maxDekWrapsPerRequest : Nat := 10000

def wrapStorageKey (wrap : DekWrapInput) : JsString :=
  decimal wrap.epoch ++ 58 :: (wrap.recipientUserId ++ 58 :: wrap.recipientEncPubHex)

def expectedWrapRecipientCount (state : MutableChainState) (environmentId : EnvironmentId) : Nat :=
  (wrapRecipientsOf state environmentId).length

def checkWrapRequestCount (count : Nat) : Option DekRejection :=
  if count > maxDekWrapsPerRequest then some (.limitExceeded maxDekWrapsPerRequest) else none

def checkServerRecipient (state : MutableChainState) (environmentId : EnvironmentId) (wrap : DekWrapInput) :
    Option DekRejection :=
  match state.serverGrants.get? wrap.recipientUserId with
  | none => some (.dekWrapRejected .recipientNotGranted)
  | some grant =>
    if grant.serverEncPubHex ≠ wrap.recipientEncPubHex then some (.dekWrapRejected .recipientKeyMismatch)
    else if !grant.scopeEnvironmentIds.contains environmentId then some (.dekWrapRejected .scopeOutOfRange)
    else none

def checkMemberRecipient (state : MutableChainState) (environmentId : EnvironmentId) (wrap : DekWrapInput) :
    Option DekRejection :=
  match state.members.get? wrap.recipientUserId with
  | none => some (.dekWrapRejected .recipientNotMember)
  | some member =>
    match member.devices.values.find? fun candidate => candidate.encPubHex = wrap.recipientEncPubHex with
    | none => some (.dekWrapRejected .recipientKeyMismatch)
    | some device =>
      if !deviceReceivesEnvironment member device environmentId then some (.dekWrapRejected .scopeOutOfRange) else none

def checkWrapRecipient (state : MutableChainState) (environmentId : EnvironmentId) (wrap : DekWrapInput) :
    Option DekRejection :=
  match wrap.recipientClass with
  | .server => checkServerRecipient state environmentId wrap
  | .member => checkMemberRecipient state environmentId wrap

/-- The seen keys after the wrap, or why it is refused. -/
def checkOneWrap (state : MutableChainState) (environmentId : EnvironmentId) (currentEpoch : Nat)
    (seen : OrderedMap JsString Unit) (wrap : DekWrapInput) : Except DekRejection (OrderedMap JsString Unit) :=
  if wrap.epoch < 1 || wrap.epoch > currentEpoch then .error (.dekWrapRejected .epochOutOfRange)
  else
    match checkWrapRecipient state environmentId wrap with
    | some rejection => .error rejection
    | none =>
      if seen.has (wrapStorageKey wrap) then .error (.dekWrapRejected .duplicateRecipient)
      else .ok (seen.set (wrapStorageKey wrap) ())

def checkWrapRecipients (state : MutableChainState) (environmentId : EnvironmentId) (currentEpoch : Nat)
    (wraps : List DekWrapInput) : Option DekRejection :=
  match checkWrapRequestCount wraps.length with
  | some rejection => some rejection
  | none =>
    match wraps.foldlM (checkOneWrap state environmentId currentEpoch) .empty with
    | .error rejection => some rejection
    | .ok _ => none

/-! ## The table -/

/-- A row of `dek_wraps`. -/
structure WrapRow where
  environmentId : EnvironmentId
  wrap : DekWrapInput
  deriving DecidableEq, Repr

/-- The storage key: the columns of the table's primary key. -/
def WrapRow.slot (row : WrapRow) : EnvironmentId × Nat × JsString × JsString :=
  (row.environmentId, row.wrap.epoch, row.wrap.recipientUserId, row.wrap.recipientEncPubHex)

def countWrapsForEpoch (table : List WrapRow) (environmentId : EnvironmentId) (epoch : Nat) : Nat :=
  table.countP fun row => row.environmentId = environmentId && row.wrap.epoch = epoch

def wrapStoredRecipient (table : List WrapRow) (environmentId : EnvironmentId) (epoch : Nat)
    (recipientUserId recipientEncPubHex : JsString) : Option (DekRecipientClass × JsString) :=
  (table.find? fun row => row.slot = (environmentId, epoch, recipientUserId, recipientEncPubHex)).map fun row =>
    (row.wrap.recipientClass, row.wrap.recipientEncPubHex)

def checkEpochSet (table : List WrapRow) (environmentId : EnvironmentId) (state : MutableChainState)
    (wraps : List DekWrapInput) (epoch : Nat) : Option DekRejection :=
  let epochWraps := wraps.filter fun wrap => wrap.epoch = epoch
  if countWrapsForEpoch table environmentId epoch = 0 then
    if epochWraps.length ≠ expectedWrapRecipientCount state environmentId then
      some (.dekWrapRejected .recipientMissing)
    else none
  else epochWraps.findSome? fun wrap =>
    (wrapStoredRecipient table environmentId epoch wrap.recipientUserId wrap.recipientEncPubHex).map fun stored =>
      .dekWrapExists epoch wrap.recipientUserId stored.2

def checkWrapSets (table : List WrapRow) (environmentId : EnvironmentId) (state : MutableChainState)
    (wraps : List DekWrapInput) : Option DekRejection :=
  (OrderedMap.setOf (wraps.map (·.epoch))).keys.findSome? (checkEpochSet table environmentId state wraps)

/-- The order of the checks; the row capacity and the registration signatures are verdicts from elsewhere. -/
def ensureWrapSetAcceptable (table : List WrapRow) (environmentId : EnvironmentId) (state : MutableChainState)
    (currentEpoch : Nat) (wraps : List DekWrapInput) (capacity signatures : Option DekRejection) : Option DekRejection :=
  ((checkWrapRecipients state environmentId currentEpoch wraps).or capacity).or
    ((checkWrapSets table environmentId state wraps).or signatures)

/-- What changes the table: a registration asked for, or rows deleted. -/
inductive WrapEvent
  | register (environmentId : EnvironmentId) (state : MutableChainState) (currentEpoch : Nat) (wraps : List DekWrapInput)
      (capacity signatures : Option DekRejection)
  | delete (deleted : WrapRow → Bool)

def applyWrapEvent (table : List WrapRow) : WrapEvent → List WrapRow
  | .register environmentId state currentEpoch wraps capacity signatures =>
    match ensureWrapSetAcceptable table environmentId state currentEpoch wraps capacity signatures with
    | some _ => table
    | none => table ++ wraps.map fun wrap => ⟨environmentId, wrap⟩
  | .delete deleted => table.filter fun row => !deleted row

/-! ## Accepted lists -/

section Checks
variable {state : MutableChainState} {environmentId : EnvironmentId} {currentEpoch : Nat}

/-- What each wrap of an accepted list is. -/
structure Admitted (state : MutableChainState) (environmentId : EnvironmentId) (currentEpoch : Nat) (wrap : DekWrapInput) :
    Prop where
  epoch : 1 ≤ wrap.epoch ∧ wrap.epoch ≤ currentEpoch
  recipient : checkWrapRecipient state environmentId wrap = none

theorem checkOneWrap_ok {seen seen' : OrderedMap JsString Unit} {wrap : DekWrapInput} :
    checkOneWrap state environmentId currentEpoch seen wrap = .ok seen' ↔
      Admitted state environmentId currentEpoch wrap ∧ seen.has (wrapStorageKey wrap) = false ∧
        seen' = seen.set (wrapStorageKey wrap) () := by
  unfold checkOneWrap
  constructor
  · intro h
    split at h
    · cases h
    rename_i hepoch
    split at h
    · cases h
    · rename_i hrecipient
      split_ifs at h with hseen
      cases h
      simp only [Bool.or_eq_true, decide_eq_true_eq, not_or] at hepoch
      exact ⟨⟨⟨by omega, by omega⟩, hrecipient⟩, Bool.eq_false_iff.mpr hseen, rfl⟩
  · rintro ⟨⟨⟨hlow, hhigh⟩, hrecipient⟩, hseen, rfl⟩
    rw [if_neg, hrecipient]
    · dsimp only
      rw [hseen]
      rfl
    · simp only [Bool.or_eq_true, decide_eq_true_eq, not_or]
      omega

theorem foldlM_checkOneWrap {seen : OrderedMap JsString Unit} {wraps : List DekWrapInput} :
    (∃ seen', wraps.foldlM (checkOneWrap state environmentId currentEpoch) seen = .ok seen') ↔
      (∀ wrap ∈ wraps, Admitted state environmentId currentEpoch wrap) ∧ (seen.keys ++ wraps.map wrapStorageKey).Nodup := by
  induction wraps generalizing seen with
  | nil =>
    rw [List.map_nil, List.append_nil]
    exact ⟨fun _ => ⟨by simp, seen.keys_nodup⟩, fun _ => ⟨seen, rfl⟩⟩
  | cons wrap rest ih =>
    rw [List.foldlM_cons, List.forall_mem_cons, List.map_cons]
    have hkeys : ∀ seen' : OrderedMap JsString Unit, seen.has (wrapStorageKey wrap) = false →
        seen' = seen.set (wrapStorageKey wrap) () → seen'.keys ++ rest.map wrapStorageKey =
          seen.keys ++ wrapStorageKey wrap :: rest.map wrapStorageKey := by
      rintro seen' hfresh rfl
      rw [OrderedMap.keys_set_of_get?_none _ ((OrderedMap.has_eq_false_iff _ _).mp hfresh), List.append_assoc,
        List.singleton_append]
    constructor
    · rintro ⟨last, h⟩
      cases hone : checkOneWrap state environmentId currentEpoch seen wrap with
      | error rejection => rw [hone] at h; cases h
      | ok seen' =>
        rw [hone] at h
        obtain ⟨hadmitted, hfresh, hset⟩ := checkOneWrap_ok.mp hone
        obtain ⟨hrest, hnodup⟩ := ih.mp ⟨last, h⟩
        rw [hkeys seen' hfresh hset] at hnodup
        exact ⟨⟨hadmitted, hrest⟩, hnodup⟩
    · rintro ⟨⟨hadmitted, hrest⟩, hnodup⟩
      have hfresh : seen.has (wrapStorageKey wrap) = false := by
        rw [OrderedMap.has_eq_false_iff]
        by_contra hne
        obtain ⟨v, hv⟩ := Option.ne_none_iff_exists'.mp hne
        exact (List.nodup_append.mp hnodup).2.2 _ ((OrderedMap.mem_keys _ _).mpr ⟨v, hv⟩) _ List.mem_cons_self rfl
      have hone := checkOneWrap_ok.mpr ⟨hadmitted, hfresh, rfl⟩
      rw [hone]
      exact ih.mpr ⟨hrest, by rw [hkeys _ hfresh rfl]; exact hnodup⟩

theorem checkWrapRecipients_eq_none {wraps : List DekWrapInput} :
    checkWrapRecipients state environmentId currentEpoch wraps = none ↔
      wraps.length ≤ maxDekWrapsPerRequest ∧ (∀ wrap ∈ wraps, Admitted state environmentId currentEpoch wrap) ∧
        (wraps.map wrapStorageKey).Nodup := by
  have hfold := @foldlM_checkOneWrap state environmentId currentEpoch .empty wraps
  have hnil : (OrderedMap.empty : OrderedMap JsString Unit).keys = [] := rfl
  rw [hnil, List.nil_append] at hfold
  rw [← hfold]
  unfold checkWrapRecipients checkWrapRequestCount
  split_ifs with hcount
  · exact ⟨fun h => (by cases h), fun h => absurd h.1 (by omega)⟩
  · cases wraps.foldlM (checkOneWrap state environmentId currentEpoch) .empty with
    | error rejection => exact ⟨fun h => (by cases h), fun ⟨_, _, h⟩ => (by cases h)⟩
    | ok seen => exact ⟨fun _ => ⟨by omega, seen, rfl⟩, fun _ => rfl⟩

end Checks

/-! ## Recipients of a state -/

section Recipients
variable {crypto : Crypto} {state : MutableChainState} {environmentId : EnvironmentId}

theorem mem_wrapRecipientsOf {r : WrapRecipient} : r ∈ wrapRecipientsOf state environmentId ↔
    (∃ member device, r = .member member device ∧ (member, device) ∈ memberDevicesInOrder state.members ∧
      deviceReceivesEnvironment member device environmentId = true) ∨
    ∃ grant, r = .server grant ∧ grant ∈ state.serverGrants.values ∧
      grant.scopeEnvironmentIds.contains environmentId = true := by
  unfold wrapRecipientsOf
  rw [List.mem_append, List.mem_map, List.mem_map]
  simp only [List.mem_insertionSort, List.mem_filter]
  constructor
  · rintro (⟨⟨member, device⟩, ⟨hm, hreceives⟩, rfl⟩ | ⟨grant, ⟨hm, hscope⟩, rfl⟩)
    · exact .inl ⟨member, device, rfl, hm, hreceives⟩
    · exact .inr ⟨grant, rfl, hm, hscope⟩
  · rintro (⟨member, device, rfl, hm, hreceives⟩ | ⟨grant, rfl, hm, hscope⟩)
    · exact .inl ⟨(member, device), ⟨hm, hreceives⟩, rfl⟩
    · exact .inr ⟨grant, ⟨hm, hscope⟩, rfl⟩

theorem address_of_admitted (hkeyed : WellKeyed crypto state) {wrap : DekWrapInput}
    (h : checkWrapRecipient state environmentId wrap = none) :
    wrap.address ∈ (wrapRecipientsOf state environmentId).map WrapRecipient.address := by
  rw [List.mem_map]
  unfold checkWrapRecipient at h
  unfold DekWrapInput.address
  cases hclass : wrap.recipientClass with
  | server =>
    rw [hclass] at h
    dsimp only at h
    unfold checkServerRecipient at h
    split at h
    · cases h
    · rename_i grant hgrant
      split_ifs at h with hkey hscope
      refine ⟨.server grant, (mem_wrapRecipientsOf).mpr (.inr ⟨grant, rfl, ?_, by simpa using hscope⟩), ?_⟩
      · exact (OrderedMap.mem_values _ _).mpr ⟨_, hgrant⟩
      · unfold WrapRecipient.address WrapRecipient.recipientClass WrapRecipient.id WrapRecipient.encPubHex
        dsimp only
        rw [hkeyed.grant _ _ hgrant, Decidable.not_not.mp hkey]
  | member =>
    rw [hclass] at h
    dsimp only at h
    unfold checkMemberRecipient at h
    split at h
    · cases h
    · rename_i member hmember
      split at h
      · cases h
      · rename_i device hdevice
        split_ifs at h with hreceives
        have henc : device.encPubHex = wrap.recipientEncPubHex := by simpa using List.find?_some hdevice
        refine ⟨.member member device, (mem_wrapRecipientsOf).mpr (.inl ⟨member, device, rfl, ?_, by simpa using hreceives⟩), ?_⟩
        · exact mem_memberDevicesInOrder.mpr ⟨(OrderedMap.mem_values _ _).mpr ⟨_, hmember⟩, List.mem_of_find?_eq_some hdevice⟩
        · unfold WrapRecipient.address WrapRecipient.recipientClass WrapRecipient.id WrapRecipient.encPubHex
          dsimp only
          rw [hkeyed.member _ _ hmember, henc]

variable {K : List JsString}

theorem checkWrapRecipient_of_address (hkeyed : WellKeyed crypto state) (hheld : KeysHeld crypto K state)
    {wrap : DekWrapInput} (h : wrap.address ∈ (wrapRecipientsOf state environmentId).map WrapRecipient.address) :
    checkWrapRecipient state environmentId wrap = none := by
  obtain ⟨r, hr, heq⟩ := List.mem_map.mp h
  obtain ⟨hclass, heq⟩ := Prod.mk.inj heq
  obtain ⟨hid, henc⟩ := Prod.mk.inj heq
  unfold checkWrapRecipient
  rcases (mem_wrapRecipientsOf).mp hr with ⟨member, device, rfl, hm, hreceives⟩ | ⟨grant, rfl, hm, hscope⟩
  · rw [← show DekRecipientClass.member = wrap.recipientClass from hclass]
    obtain ⟨hmember, hdevice, hcurrent⟩ := place_of_device hkeyed hm
    have hid : member.userId = wrap.recipientUserId := hid
    have henc : device.encPubHex = wrap.recipientEncPubHex := henc
    dsimp only
    unfold checkMemberRecipient
    rw [← hid, hmember]
    dsimp only
    have hfound : member.devices.values.find? (fun candidate => candidate.encPubHex = wrap.recipientEncPubHex) =
        some device := by
      cases hfind : member.devices.values.find? (fun candidate => candidate.encPubHex = wrap.recipientEncPubHex) with
      | none =>
        have hnot := List.find?_eq_none.mp hfind device (mem_memberDevicesInOrder.mp hm).2
        exact absurd henc (by simpa using hnot)
      | some other =>
        have hother : (member, other) ∈ memberDevicesInOrder state.members :=
          mem_memberDevicesInOrder.mpr ⟨(mem_memberDevicesInOrder.mp hm).1, List.mem_of_find?_eq_some hfind⟩
        have hkey : other.encPubHex = wrap.recipientEncPubHex := by simpa using List.find?_some hfind
        obtain ⟨-, -, hplace⟩ := place_of_device hkeyed hother
        have hsame := hheld.enc.unique _ _ _ _ hplace hcurrent (hkey.trans henc.symm)
        rw [hsame, hcurrent] at hplace
        exact hplace.symm
    rw [hfound]
    dsimp only
    rw [hreceives]
    rfl
  · rw [← show DekRecipientClass.server = wrap.recipientClass from hclass]
    obtain ⟨fp, hgrant⟩ := (OrderedMap.mem_values _ _).mp hm
    have hid : grant.serverKeyFingerprintHex = wrap.recipientUserId := hid
    have henc : grant.serverEncPubHex = wrap.recipientEncPubHex := henc
    rw [← hkeyed.grant _ _ hgrant] at hgrant
    dsimp only
    unfold checkServerRecipient
    rw [← hid, hgrant]
    dsimp only
    rw [if_neg (not_not_intro henc), hscope]
    rfl

theorem encPubHexes_nodup (hkeyed : WellKeyed crypto state) (hheld : KeysHeld crypto K state)
    (environmentId : EnvironmentId) : ((wrapRecipientsOf state environmentId).map WrapRecipient.encPubHex).Nodup := by
  unfold wrapRecipientsOf
  rw [List.map_append, List.map_map, List.map_map]
  refine List.nodup_append.mpr ⟨?_, ?_, ?_⟩
  · exact (devices_nodup hkeyed hheld.enc.unique).sublist (List.filter_sublist.map _)
  · have hgrants : (state.serverGrants.values.map ServerGrant.serverEncPubHex).Nodup := by
      refine List.Nodup.of_map (serverFingerprintHex crypto) ?_
      have hkeys : (state.serverGrants.values.map ServerGrant.serverEncPubHex).map (serverFingerprintHex crypto) =
          state.serverGrants.keys := by
        unfold OrderedMap.values OrderedMap.keys
        rw [List.map_map, List.map_map]
        exact List.map_congr_left fun e he => hheld.fingerprint e.1 e.2 ((OrderedMap.mem_entries _ _ _).mp he)
      rw [hkeys]
      exact state.serverGrants.keys_nodup
    refine ((List.perm_insertionSort _ _).map _).nodup_iff.mpr ?_
    exact hgrants.sublist (List.filter_sublist.map _)
  · intro enc henc enc' henc' heq
    obtain ⟨r, hr, rfl⟩ := List.mem_map.mp henc
    obtain ⟨grant, hgrant, rfl⟩ := List.mem_map.mp henc'
    obtain ⟨-, -, hcurrent⟩ := place_of_device hkeyed (List.mem_of_mem_filter hr)
    rw [List.mem_insertionSort] at hgrant
    obtain ⟨fp, hfp⟩ := (OrderedMap.mem_values _ _).mp (List.mem_of_mem_filter hgrant)
    obtain ⟨key, hkey⟩ := hheld.named fp grant hfp
    have hnone := hheld.unnamed _ _ hcurrent
    rw [show r.2.encPubHex = grant.serverEncPubHex from heq, hkey] at hnone
    cases hnone

theorem encPubHex_held (hkeyed : WellKeyed crypto state) (hheld : KeysHeld crypto K state) {r : WrapRecipient}
    (h : r ∈ wrapRecipientsOf state environmentId) : r.encPubHex ∈ K := by
  rcases (mem_wrapRecipientsOf).mp h with ⟨member, device, rfl, hm, -⟩ | ⟨grant, rfl, hm, -⟩
  · obtain ⟨-, -, hcurrent⟩ := place_of_device hkeyed hm
    exact hheld.device _ _ hcurrent
  · obtain ⟨fp, hfp⟩ := (OrderedMap.mem_values _ _).mp hm
    exact hheld.grant fp grant hfp

theorem expectedWrapRecipientCount_le {entries : List Json} (hkeyed : WellKeyed crypto state)
    (hheld : KeysHeld crypto (heldKeys entries) state) (environmentId : EnvironmentId) :
    expectedWrapRecipientCount state environmentId ≤ entries.length := by
  unfold expectedWrapRecipientCount
  rw [← List.length_map WrapRecipient.encPubHex]
  refine le_trans ?_ (heldKeys_length entries)
  refine (List.subperm_of_subset (encPubHexes_nodup hkeyed hheld environmentId) fun k hk => ?_).length_le
  obtain ⟨r, hr, rfl⟩ := List.mem_map.mp hk
  exact encPubHex_held hkeyed hheld hr

theorem storageKeys_nodup {wraps : List DekWrapInput} (hlength : ∀ wrap ∈ wraps, wrap.recipientEncPubHex.length = 64)
    (h : (wraps.map DekWrapInput.recipientEncPubHex).Nodup) : (wraps.map wrapStorageKey).Nodup := by
  refine List.Nodup.of_map (fun key => key.drop (key.length - 64)) ?_
  have hkeys : (wraps.map wrapStorageKey).map (fun key => key.drop (key.length - 64)) =
      wraps.map DekWrapInput.recipientEncPubHex := by
    rw [List.map_map]
    refine List.map_congr_left fun wrap hm => ?_
    have h64 := hlength wrap hm
    have hsplit : wrapStorageKey wrap = (decimal wrap.epoch ++ 58 :: (wrap.recipientUserId ++ [58])) ++ wrap.recipientEncPubHex := by
      simp [wrapStorageKey]
    simp only [Function.comp_apply]
    rw [hsplit, List.length_append, h64, Nat.add_sub_cancel, List.drop_left]
  rw [hkeys]
  exact h

end Recipients

/-! ## Rows -/

section Rows

theorem mem_setOf_epochs {wraps : List DekWrapInput} {epoch : Nat} :
    epoch ∈ (OrderedMap.setOf (wraps.map (·.epoch))).keys ↔ ∃ wrap ∈ wraps, wrap.epoch = epoch := by
  rw [OrderedMap.mem_keys_setOf, List.mem_map]

theorem slot_free {table : List WrapRow} {environmentId : EnvironmentId} {state : MutableChainState}
    {wraps : List DekWrapInput} (h : checkWrapSets table environmentId state wraps = none) {wrap : DekWrapInput}
    (hm : wrap ∈ wraps) {row : WrapRow} (hrow : row ∈ table) : row.slot ≠ (WrapRow.mk environmentId wrap).slot := by
  intro hslot
  obtain ⟨henvironment, hrest⟩ := Prod.mk.inj hslot
  obtain ⟨hepoch, -⟩ := Prod.mk.inj hrest
  have hset := List.findSome?_eq_none_iff.mp h wrap.epoch (mem_setOf_epochs.mpr ⟨wrap, hm, rfl⟩)
  unfold checkEpochSet at hset
  dsimp only at hset
  rw [if_neg] at hset
  · have hstored := List.findSome?_eq_none_iff.mp hset wrap (List.mem_filter.mpr ⟨hm, decide_eq_true rfl⟩)
    rw [Option.map_eq_none_iff] at hstored
    unfold wrapStoredRecipient at hstored
    rw [Option.map_eq_none_iff, List.find?_eq_none] at hstored
    exact hstored row hrow (decide_eq_true hslot)
  · unfold countWrapsForEpoch
    rw [List.countP_eq_zero]
    intro hnone
    refine hnone row hrow ?_
    rw [Bool.and_eq_true, decide_eq_true_eq, decide_eq_true_eq]
    exact ⟨henvironment, hepoch⟩

theorem slots_insert {table : List WrapRow} {environmentId : EnvironmentId} {state : MutableChainState}
    {currentEpoch : Nat} {wraps : List DekWrapInput} (htable : (table.map WrapRow.slot).Nodup)
    (hrecipients : checkWrapRecipients state environmentId currentEpoch wraps = none)
    (hsets : checkWrapSets table environmentId state wraps = none) :
    ((table ++ wraps.map fun wrap => WrapRow.mk environmentId wrap).map WrapRow.slot).Nodup := by
  obtain ⟨-, -, hkeys⟩ := (checkWrapRecipients_eq_none).mp hrecipients
  rw [List.map_append, List.map_map]
  refine List.nodup_append.mpr ⟨htable, ?_, ?_⟩
  · refine List.Nodup.of_map (fun slot => decimal slot.2.1 ++ 58 :: (slot.2.2.1 ++ 58 :: slot.2.2.2)) ?_
    rw [List.map_map]
    exact hkeys
  · intro slot hslot slot' hslot' heq
    obtain ⟨row, hrow, rfl⟩ := List.mem_map.mp hslot
    obtain ⟨wrap, hwrap, rfl⟩ := List.mem_map.mp hslot'
    exact slot_free hsets hwrap hrow heq

theorem slots_event {table : List WrapRow} (htable : (table.map WrapRow.slot).Nodup) (event : WrapEvent) :
    ((applyWrapEvent table event).map WrapRow.slot).Nodup := by
  cases event with
  | register environmentId state currentEpoch wraps capacity signatures =>
    unfold applyWrapEvent
    dsimp only
    cases haccepted : ensureWrapSetAcceptable table environmentId state currentEpoch wraps capacity signatures with
    | some rejection => exact htable
    | none =>
      unfold ensureWrapSetAcceptable at haccepted
      rw [Option.or_eq_none_iff, Option.or_eq_none_iff, Option.or_eq_none_iff] at haccepted
      exact slots_insert htable haccepted.1.1 haccepted.2.1
  | delete deleted => exact htable.sublist (List.filter_sublist.map _)

theorem slots_run {table : List WrapRow} (htable : (table.map WrapRow.slot).Nodup) (events : List WrapEvent) :
    ((events.foldl applyWrapEvent table).map WrapRow.slot).Nodup := by
  induction events generalizing table with
  | nil => exact htable
  | cons event rest ih => exact ih (slots_event htable event)

end Rows

/-! ## The complete set -/

section Complete
variable {crypto : Crypto} {entries : List Json} {state : MutableChainState} {environmentId : EnvironmentId}
  {currentEpoch : Nat}

theorem epochWraps_perm (hkeyed : WellKeyed crypto state) {wraps : List DekWrapInput}
    (h : checkWrapRecipients state environmentId currentEpoch wraps = none) {epoch : Nat}
    (hcount : (wraps.filter fun wrap => wrap.epoch = epoch).length = expectedWrapRecipientCount state environmentId) :
    ((wraps.filter fun wrap => wrap.epoch = epoch).map DekWrapInput.address).Perm
      ((wrapRecipientsOf state environmentId).map WrapRecipient.address) ∧
    ((wraps.filter fun wrap => wrap.epoch = epoch).map fun wrap => (wrap.recipientUserId, wrap.recipientEncPubHex)).Nodup := by
  obtain ⟨-, hadmitted, hkeys⟩ := (checkWrapRecipients_eq_none).mp h
  have hpairs : ((wraps.filter fun wrap => wrap.epoch = epoch).map
      fun wrap => (wrap.recipientUserId, wrap.recipientEncPubHex)).Nodup := by
    refine List.Nodup.of_map (fun pair => decimal epoch ++ 58 :: (pair.1 ++ 58 :: pair.2)) ?_
    rw [List.map_map]
    have hsame : (wraps.filter fun wrap => wrap.epoch = epoch).map
        ((fun pair : JsString × JsString => decimal epoch ++ 58 :: (pair.1 ++ 58 :: pair.2)) ∘
          fun wrap => (wrap.recipientUserId, wrap.recipientEncPubHex)) =
        (wraps.filter fun wrap => wrap.epoch = epoch).map wrapStorageKey := by
      refine List.map_congr_left fun wrap hm => ?_
      have hepoch : wrap.epoch = epoch := by simpa using (List.mem_filter.mp hm).2
      simp only [Function.comp_apply, wrapStorageKey, hepoch]
    rw [hsame]
    exact hkeys.sublist (List.filter_sublist.map _)
  refine ⟨?_, hpairs⟩
  have haddresses : ((wraps.filter fun wrap => wrap.epoch = epoch).map DekWrapInput.address).Nodup := by
    refine List.Nodup.of_map Prod.snd ?_
    rw [List.map_map]
    exact hpairs
  refine (List.subperm_of_subset haddresses fun address hm => ?_).perm_of_length_le ?_
  · obtain ⟨wrap, hwrap, rfl⟩ := List.mem_map.mp hm
    exact address_of_admitted hkeyed (hadmitted wrap (List.mem_of_mem_filter hwrap)).recipient
  · rw [List.length_map, List.length_map, hcount]
    exact le_refl _

theorem complete_passes (hkeyed : WellKeyed crypto state) (hheld : KeysHeld crypto (heldKeys entries) state)
    (hentries : entries.length ≤ maxChainEntries) {wraps : List DekWrapInput} {epoch : Nat} (hlow : 1 ≤ epoch)
    (hhigh : epoch ≤ currentEpoch) (hepoch : ∀ wrap ∈ wraps, wrap.epoch = epoch)
    (hcomplete : wraps.map DekWrapInput.address = (wrapRecipientsOf state environmentId).map WrapRecipient.address) :
    checkWrapRecipients state environmentId currentEpoch wraps = none ∧
    ∀ table, countWrapsForEpoch table environmentId epoch = 0 → checkWrapSets table environmentId state wraps = none := by
  have hlength : wraps.length = expectedWrapRecipientCount state environmentId := by
    rw [← List.length_map DekWrapInput.address, hcomplete, List.length_map]
    rfl
  have hmem : ∀ wrap ∈ wraps, wrap.address ∈ (wrapRecipientsOf state environmentId).map WrapRecipient.address := by
    intro wrap hm
    rw [← hcomplete]
    exact List.mem_map_of_mem hm
  have hencs : wraps.map DekWrapInput.recipientEncPubHex =
      (wrapRecipientsOf state environmentId).map WrapRecipient.encPubHex := by
    have h := congrArg (List.map fun address : DekRecipientClass × JsString × JsString => address.2.2) hcomplete
    rw [List.map_map, List.map_map] at h
    exact h
  constructor
  · refine (checkWrapRecipients_eq_none).mpr ⟨?_, fun wrap hm => ⟨?_, ?_⟩, ?_⟩
    · rw [hlength]
      exact (expectedWrapRecipientCount_le hkeyed hheld environmentId).trans hentries
    · rw [hepoch wrap hm]
      exact ⟨hlow, hhigh⟩
    · exact checkWrapRecipient_of_address hkeyed hheld (hmem wrap hm)
    · refine storageKeys_nodup (fun wrap hm => ?_) ?_
      · obtain ⟨r, hr, heq⟩ := List.mem_map.mp (hmem wrap hm)
        have henc : r.encPubHex = wrap.recipientEncPubHex := congrArg (fun address => address.2.2) heq
        rw [← henc]
        exact heldKey_length (encPubHex_held hkeyed hheld hr)
      · rw [hencs]
        exact encPubHexes_nodup hkeyed hheld environmentId
  · intro table htable
    refine List.findSome?_eq_none_iff.mpr fun other hother => ?_
    obtain ⟨wrap, hm, rfl⟩ := mem_setOf_epochs.mp hother
    have hall : (wraps.filter fun other => other.epoch = wrap.epoch) = wraps := by
      rw [List.filter_eq_self]
      intro other hother
      rw [decide_eq_true_eq, hepoch other hother, hepoch wrap hm]
    unfold checkEpochSet
    dsimp only
    rw [hall, hepoch wrap hm, if_pos htable, if_neg (not_not_intro hlength)]

end Complete

/-- **The accepted wraps of an epoch are R(E), each recipient once.** The bound is the server's own on a log's length. -/
theorem accepted_wraps_exact (crypto : Crypto) (entries : List Json) (state : MutableChainState)
    (h : stateAfter crypto entries = some state) (environmentId : EnvironmentId) (currentEpoch : Nat) :
    (∀ wraps epoch, checkWrapRecipients state environmentId currentEpoch wraps = none →
      (wraps.filter fun wrap => wrap.epoch = epoch).length = expectedWrapRecipientCount state environmentId →
      ((wraps.filter fun wrap => wrap.epoch = epoch).map DekWrapInput.address).Perm
        ((wrapRecipientsOf state environmentId).map WrapRecipient.address) ∧
      ((wraps.filter fun wrap => wrap.epoch = epoch).map
        fun wrap => (wrap.recipientUserId, wrap.recipientEncPubHex)).Nodup) ∧
    (entries.length ≤ maxChainEntries → ∀ wraps epoch, 1 ≤ epoch → epoch ≤ currentEpoch →
      (∀ wrap ∈ wraps, wrap.epoch = epoch) →
      wraps.map DekWrapInput.address = (wrapRecipientsOf state environmentId).map WrapRecipient.address →
      checkWrapRecipients state environmentId currentEpoch wraps = none ∧
      ∀ table, countWrapsForEpoch table environmentId epoch = 0 → checkWrapSets table environmentId state wraps = none) ∧
    ∀ (table : List WrapRow) (events : List WrapEvent), (table.map WrapRow.slot).Nodup →
      ((events.foldl applyWrapEvent table).map WrapRow.slot).Nodup := by
  have hkeyed := wellKeyed_of_stateAfter h
  have hheld := keysHeld_of_stateAfter h
  exact ⟨fun wraps epoch hpass hcount => epochWraps_perm hkeyed hpass hcount,
    fun hentries wraps epoch hlow hhigh hepoch hcomplete => complete_passes hkeyed hheld hentries hlow hhigh hepoch hcomplete,
    fun table events htable => slots_run htable events⟩

/-- The wraps of a complete set, one for each recipient. -/
def completeWraps (state : MutableChainState) (environmentId : EnvironmentId) (epoch : Nat) : List DekWrapInput :=
  (wrapRecipientsOf state environmentId).map fun r => {
    recipientClass := r.recipientClass
    recipientUserId := r.id
    suite := lit "s"
    epoch
    recipientEncPubHex := r.encPubHex
    encHex := []
    ciphertextHex := []
    signatureHex := [] }

/-- The complete set of the example log's environment is accepted into an empty table. -/
theorem accepted_wraps_exact_example : ∃ state, stateAfter exampleCrypto (exampleChain.take 8) = some state ∧
    checkWrapRecipients state (lit "prod") 1 (completeWraps state (lit "prod") 1) = none ∧
    checkWrapSets [] (lit "prod") state (completeWraps state (lit "prod") 1) = none := by
  obtain ⟨st, hverified⟩ := exampleChain_verified
  obtain ⟨state, hstate⟩ := stateAfter_take hverified 8
  have hcomplete : (completeWraps state (lit "prod") 1).map DekWrapInput.address =
      (wrapRecipientsOf state (lit "prod")).map WrapRecipient.address := by
    unfold completeWraps
    rw [List.map_map]
    rfl
  have hepoch : ∀ wrap ∈ completeWraps state (lit "prod") 1, wrap.epoch = 1 := by
    intro wrap hm
    obtain ⟨r, -, rfl⟩ := List.mem_map.mp hm
    rfl
  have hlength : (exampleChain.take 8).length ≤ maxChainEntries := (List.length_take_le 8 _).trans (by decide)
  obtain ⟨hrecipients, hsets⟩ := (accepted_wraps_exact exampleCrypto (exampleChain.take 8) state hstate (lit "prod") 1).2.1
    hlength (completeWraps state (lit "prod") 1) 1 (le_refl 1) (le_refl 1) hepoch hcomplete
  exact ⟨state, hstate, hrecipients, hsets [] rfl⟩

end Maruhi.Wraps
