import Maruhi.Sync.Delivery

/-!
# Runs of the source and of `sync apply` (`sync-plan.ts`)

Variable operations and applies in any order, and operations between the two pulls of an apply.
-/

open Text Run

namespace Maruhi.Sync

def TargetDriver.needsToken : TargetDriver → Bool
  | exec _ => false
  | http _ => true

def requireProductionConsent (target : SyncTarget) (yes : Bool) : Except SyncError Unit :=
  if target.production && !yes then .error .needsYes else .ok ()

/-- An apply: the operations accepted between its two pulls, and how the other side answers. -/
structure Apply where
  target : SyncTarget
  yes : Bool
  token : Bool
  between : List SourceOp
  vendor : Vendor
  syncedAt : JsString

/-- The receipt variable and the target after `syncApplyOp`. -/
def syncApplyOp (apply : Apply) (planned pulled : Source) (stored : Option Json) (store : Store) :
    Except SyncError (Option Json × Store) := do
  let loaded ← loadReceipt apply.target stored
  let plan ← computePlan apply.target planned.sourceVariables planned.declaredVariables loaded
  reviewPlan plan
  let writeNames := (plan.entries.filter fun entry => entry.writes?.isSome).map PlanEntry.name
  let work ← prepareWork apply.target plan (writesOf (pulled.pullVariables fun name => writeNames.contains name))
  if work.writes.isEmpty && work.deletes.isEmpty then pure (stored, store)
  else
    requireProductionConsent apply.target apply.yes
    if apply.target.driver.needsToken && !apply.token then .error .token
    else
      let (result, store') := runDriver apply.vendor apply.target work store
      let receipt := nextReceipt apply.target loaded result work.versions apply.syncedAt
      pure (saveReceipt loaded stored receipt, store')

/-- The receipt variables and the targets, by target name. -/
structure SyncState where
  source : Source
  receipts : OrderedMap JsString Json
  stores : OrderedMap JsString Store

namespace SyncState

def start : SyncState := ⟨.empty, .empty, .empty⟩

def storeOf (s : SyncState) (target : JsString) : Store := (s.stores.get? target).getD .empty

def versionsOf (s : SyncState) (target : JsString) : OrderedMap JsString Nat :=
  recordedVersions target (s.receipts.get? target)

end SyncState

inductive SyncEvent
  | operate (op : SourceOp)
  | apply (apply : Apply)

/-- An apply that is refused sends nothing. -/
def SyncState.step (s : SyncState) : SyncEvent → SyncState
  | .operate op => { s with source := s.source.operate op }
  | .apply apply =>
    let name := apply.target.name
    let pulled := apply.between.foldl Source.operate s.source
    match syncApplyOp apply s.source pulled (s.receipts.get? name) (s.storeOf name) with
    | .error _ => { s with source := pulled }
    | .ok (stored, store) =>
      { source := pulled
        receipts := stored.elim (s.receipts.delete name) (s.receipts.set name)
        stores := s.stores.set name store }

def SyncState.run (s : SyncState) (events : List SyncEvent) : SyncState := events.foldl SyncState.step s

/-! ## The source -/

structure WellFormed (source : Source) : Prop where
  distinct : ∀ id id' row row', source.get? id = some row → source.get? id' = some row' → row.deleted = false →
    row'.deleted = false → row.name = row'.name → id = id'
  bounded : ∀ id row, source.get? id = some row → row.version ≤ maxVersions

theorem wellFormed_empty : WellFormed .empty := ⟨by simp, by simp⟩

theorem variableNameTaken_false {source : Source} {name : JsString} {exclude : Option JsString}
    (h : source.variableNameTaken name exclude = false) {id : JsString} {row : Variable}
    (hget : source.get? id = some row) (hlive : row.deleted = false) (hname : row.name = name) : some id = exclude := by
  unfold Source.variableNameTaken at h
  rw [List.any_eq_false] at h
  have hrow := h (id, row) ((OrderedMap.mem_entries _ _ _).mpr hget)
  simpa [hname, hlive] using hrow

theorem accept_spec {source source' : Source} {op : SourceOp} (h : source.accept op = some source') :
    ∃ id row', source' = source.set id row' ∧
      ((∃ name required value, op = .create id name required value ∧ source.get? id = none ∧
          row' = ⟨name, required, value.toList, false⟩ ∧ source.variableNameTaken name none = false) ∨
        ∃ row, source.get? id = some row ∧ row.deleted = false ∧
          ((∃ value, op = .push id value ∧ row' = { row with values := row.values ++ [value] } ∧
              row.version + 1 ≤ maxVersions) ∨
            (∃ value, op = .activate id value ∧ row' = { row with values := [value] } ∧ row.version = 0) ∨
            (∃ name required, op = .rename id name required ∧
              row' = { row with name := name, required := required } ∧
              source.variableNameTaken name (some id) = false) ∨
            op = .delete id ∧ row' = { row with values := [], deleted := true })) := by
  cases op with
  | create id name required value =>
    simp only [Source.accept, Source.createVariable, Bool.or_eq_true, not_or, Option.ite_none_left_eq_some,
      Bool.not_eq_true, Option.some.injEq, OrderedMap.has_eq_false_iff] at h
    obtain ⟨⟨hnone, htaken⟩, rfl⟩ := h
    exact ⟨id, _, rfl, Or.inl ⟨name, required, value, rfl, hnone, rfl, htaken⟩⟩
  | push id value =>
    simp only [Source.accept, Source.pushVersion] at h
    cases hget : source.get? id with
    | none => simp [hget] at h
    | some row =>
      simp only [hget, Option.ite_none_left_eq_some, not_or, Bool.not_eq_true, Bool.or_eq_true, decide_eq_true_eq,
        Option.some.injEq] at h
      obtain ⟨⟨⟨hlive, -⟩, hmax⟩, rfl⟩ := h
      exact ⟨id, _, rfl, Or.inr ⟨row, hget, hlive, Or.inl ⟨value, rfl, rfl, by omega⟩⟩⟩
  | activate id value =>
    simp only [Source.accept, Source.activateVariable] at h
    cases hget : source.get? id with
    | none => simp [hget] at h
    | some row =>
      simp only [hget, Option.ite_none_left_eq_some, not_or, Bool.not_eq_true, Bool.or_eq_true, Bool.not_eq_false',
        Option.some.injEq] at h
      obtain ⟨⟨hlive, hdeclared⟩, rfl⟩ := h
      have hversion : row.version = 0 := by
        simp only [Variable.isDeclared] at hdeclared
        simpa [hlive] using hdeclared
      exact ⟨id, _, rfl, Or.inr ⟨row, hget, hlive, Or.inr (Or.inl ⟨value, rfl, rfl, hversion⟩)⟩⟩
  | rename id name required =>
    simp only [Source.accept, Source.renameVariable] at h
    cases hget : source.get? id with
    | none => simp [hget] at h
    | some row =>
      simp only [hget, Option.ite_none_left_eq_some, not_or, Bool.not_eq_true, Bool.or_eq_true,
        Option.some.injEq] at h
      obtain ⟨⟨hlive, htaken⟩, rfl⟩ := h
      exact ⟨id, _, rfl, Or.inr ⟨row, hget, hlive, Or.inr (Or.inr (Or.inl ⟨name, required, rfl, rfl, htaken⟩))⟩⟩
  | delete id =>
    simp only [Source.accept, Source.deleteVariable] at h
    cases hget : source.get? id with
    | none => simp [hget] at h
    | some row =>
      simp only [hget, Option.ite_none_left_eq_some, Bool.not_eq_true, Option.some.injEq] at h
      obtain ⟨hlive, rfl⟩ := h
      exact ⟨id, _, rfl, Or.inr ⟨row, hget, hlive, Or.inr (Or.inr (Or.inr ⟨rfl, rfl⟩))⟩⟩

theorem wellFormed_set {source : Source} (h : WellFormed source) {id : JsString} {row : Variable}
    (hname : row.deleted = false → ∀ id' row', source.get? id' = some row' → row'.deleted = false →
      row'.name = row.name → id' = id) (hbound : row.version ≤ maxVersions) : WellFormed (source.set id row) := by
  refine ⟨fun a b rowA rowB hA hB hliveA hliveB hsame => ?_, fun a rowA hA => ?_⟩
  · rw [OrderedMap.get?_set] at hA hB
    split_ifs at hA hB with ha hb hb
    · rw [ha, hb]
    · cases hA
      rw [ha, hname hliveA b rowB hB hliveB hsame.symm]
    · cases hB
      rw [hb, hname hliveB a rowA hA hliveA hsame]
    · exact h.distinct a b rowA rowB hA hB hliveA hliveB hsame
  · rw [OrderedMap.get?_set] at hA
    split_ifs at hA with ha
    · cases hA
      exact hbound
    · exact h.bounded a rowA hA

theorem wellFormed_accept {source source' : Source} {op : SourceOp} (h : WellFormed source)
    (haccept : source.accept op = some source') : WellFormed source' := by
  obtain ⟨id, row', rfl, hcreate | ⟨row, hget, hlive, hpush | hactivate | hrename | hdelete⟩⟩ := accept_spec haccept
  · obtain ⟨name, required, value, -, -, rfl, htaken⟩ := hcreate
    refine wellFormed_set h (fun _ other rowO hO hliveO hsame => ?_) ?_
    · exact absurd (variableNameTaken_false htaken hO hliveO hsame) (by simp)
    · unfold Variable.version maxVersions
      cases value <;> simp
  · obtain ⟨value, -, rfl, hmax⟩ := hpush
    refine wellFormed_set h (fun _ other rowO hO hliveO hsame => h.distinct _ _ _ _ hO hget hliveO hlive hsame) ?_
    simpa [Variable.version] using hmax
  · obtain ⟨value, -, rfl, -⟩ := hactivate
    refine wellFormed_set h (fun _ other rowO hO hliveO hsame => h.distinct _ _ _ _ hO hget hliveO hlive hsame) ?_
    simp [Variable.version, maxVersions]
  · obtain ⟨name, required, -, rfl, htaken⟩ := hrename
    refine wellFormed_set h (fun _ other rowO hO hliveO hsame => ?_) (h.bounded id row hget)
    exact Option.some.inj (variableNameTaken_false htaken hO hliveO hsame)
  · obtain ⟨-, rfl⟩ := hdelete
    exact wellFormed_set h (fun hdead => absurd hdead (by simp)) (by simp [Variable.version])

theorem wellFormed_operate {source : Source} (h : WellFormed source) (op : SourceOp) :
    WellFormed (source.operate op) := by
  unfold Source.operate
  cases haccept : source.accept op with
  | none => exact h
  | some source' => exact wellFormed_accept h haccept

theorem mem_sourceVariables {source : Source} {entry : SourceVariable} (h : entry ∈ source.sourceVariables) :
    ∃ id row, source.get? id = some row ∧ row.isActive = true ∧ row.name = entry.name ∧ row.version = entry.version := by
  obtain ⟨row, hrow, hentry⟩ := List.mem_filterMap.mp h
  obtain ⟨id, hget⟩ := (OrderedMap.mem_values _ _).mp hrow
  split_ifs at hentry with hactive
  cases hentry
  exact ⟨id, row, hget, hactive, rfl, rfl⟩

theorem mem_pullVariables {source : Source} {select : JsString → Bool} {write : DecryptedVariable}
    (h : write ∈ source.pullVariables select) :
    ∃ row, source.get? write.variableId = some row ∧ row.isActive = true ∧ row.name = write.name ∧
      row.version = write.version ∧ row.valueAt row.version = write.value := by
  obtain ⟨⟨id, row⟩, hmem, hwrite⟩ := List.mem_filterMap.mp h
  split_ifs at hwrite with hactive
  cases hwrite
  simp only [Bool.and_eq_true] at hactive
  exact ⟨row, (OrderedMap.mem_entries _ _ _).mp hmem, hactive.1, rfl, rfl, rfl⟩

theorem Variable.isActive_iff (row : Variable) : row.isActive = true ↔ row.deleted = false ∧ 1 ≤ row.version := by
  simp [Variable.isActive, Nat.one_le_iff_ne_zero, Nat.pos_iff_ne_zero]

/-! ## The receipt stays honest -/

/-- The receipt's versions and what the target holds, against the source. -/
structure Honest (source : Source) (versions : OrderedMap JsString Nat) (store : Store) : Prop where
  same : ∀ name, (versions.get? name).isSome = (store.get? name).isSome
  bounded : ∀ name version, versions.get? name = some version → 1 ≤ version ∧ version ≤ maxVersions
  origin : ∀ name delivery, store.get? name = some delivery → ∃ row, source.get? delivery.variableId = some row ∧
    (row.deleted = true ∨ 1 ≤ delivery.version ∧ delivery.version ≤ row.version ∧
      delivery.content = deliveredContent delivery.asText (row.valueAt delivery.version))

theorem honest_empty (source : Source) : Honest source .empty .empty := ⟨by simp, by simp, by simp⟩

theorem valueAt_append {row : Variable} {version : Nat} (h1 : 1 ≤ version) (h2 : version ≤ row.version) (value : Bytes) :
    { row with values := row.values ++ [value] }.valueAt version = row.valueAt version := by
  unfold Variable.valueAt
  unfold Variable.version at h2
  dsimp only
  rw [List.getElem?_append_left (by omega)]

theorem honest_set {source : Source} {versions : OrderedMap JsString Nat} {store : Store}
    (h : Honest source versions store) {id : JsString} {row' : Variable}
    (hvalues : ∀ row, source.get? id = some row → row'.deleted = true ∨ row.deleted = false ∧
      ∀ version, 1 ≤ version → version ≤ row.version →
        version ≤ row'.version ∧ row'.valueAt version = row.valueAt version) :
    Honest (source.set id row') versions store := by
  refine ⟨h.same, h.bounded, fun name delivery hdelivery => ?_⟩
  obtain ⟨row, hrow, hcase⟩ := h.origin name delivery hdelivery
  rw [OrderedMap.get?_set]
  split_ifs with heq
  · refine ⟨row', rfl, ?_⟩
    rw [heq] at hrow
    rcases hvalues row hrow with hdead | ⟨hlive, hkept⟩
    · exact Or.inl hdead
    · rcases hcase with hdead | ⟨h1, h2, hvalue⟩
      · rw [hlive] at hdead
        cases hdead
      · obtain ⟨hle, hat⟩ := hkept _ h1 h2
        exact Or.inr ⟨h1, hle, by rw [hat]; exact hvalue⟩
  · exact ⟨row, hrow, hcase⟩

theorem honest_accept {source source' : Source} {op : SourceOp} {versions : OrderedMap JsString Nat} {store : Store}
    (h : Honest source versions store) (haccept : source.accept op = some source') : Honest source' versions store := by
  obtain ⟨id, row', rfl, hcreate | ⟨row, hget, hlive, hpush | hactivate | hrename | hdelete⟩⟩ := accept_spec haccept
  · obtain ⟨name, required, value, -, hnone, -, -⟩ := hcreate
    exact honest_set h fun row hrow => by rw [hnone] at hrow; cases hrow
  · obtain ⟨value, -, rfl, -⟩ := hpush
    refine honest_set h fun other hother => ?_
    cases hget.symm.trans hother
    refine Or.inr ⟨hlive, fun version h1 h2 => ⟨?_, valueAt_append h1 h2 value⟩⟩
    simp only [Variable.version, List.length_append, List.length_singleton] at h2 ⊢
    omega
  · obtain ⟨value, -, rfl, hzero⟩ := hactivate
    refine honest_set h fun other hother => ?_
    cases hget.symm.trans hother
    exact Or.inr ⟨hlive, fun version h1 h2 => by omega⟩
  · obtain ⟨name, required, -, rfl, -⟩ := hrename
    refine honest_set h fun other hother => ?_
    cases hget.symm.trans hother
    exact Or.inr ⟨hlive, fun version _ h2 => ⟨h2, rfl⟩⟩
  · obtain ⟨-, rfl⟩ := hdelete
    exact honest_set h fun _ _ => Or.inl rfl

theorem honest_operate {source : Source} (op : SourceOp) {versions : OrderedMap JsString Nat} {store : Store}
    (h : Honest source versions store) : Honest (source.operate op) versions store := by
  unfold Source.operate
  cases haccept : source.accept op with
  | none => exact h
  | some source' => exact honest_accept h haccept

/-! ## An apply -/

theorem syncWrite_ext {a b : SyncWrite} (h : a.toDecryptedVariable = b.toDecryptedVariable) : a = b := by
  obtain ⟨a, textA, hA⟩ := a
  obtain ⟨b, textB, hB⟩ := b
  dsimp only at h
  subst h
  cases hA.symm.trans hB
  rfl

/-- A delivery of a pulled value. -/
structure DeliversOf (pulled : List DecryptedVariable) (delivery : Delivery) (write : DecryptedVariable) : Prop where
  pulled : write ∈ pulled
  variableId : delivery.variableId = write.variableId
  version : delivery.version = write.version
  content : delivery.content = deliveredContent delivery.asText write.value

/-- What a run of the driver leaves of a name: as it was, gone on both sides, or a pulled value under the
planned version. -/
theorem driver_cases {target : SyncTarget} {source : List SourceVariable} {declared : List DeclaredVariable}
    {pulled : List DecryptedVariable} {loaded : Option SyncReceipt} {plan : SyncPlan} {work : ApplyWork}
    (hplan : computePlan target source declared loaded = .ok plan)
    (hwork : prepareWork target plan (writesOf pulled) = .ok work) (vendor : Vendor) (store : Store)
    (syncedAt name : JsString) :
    let out := runDriver vendor target work store
    let versions := (nextReceipt target loaded out.1 work.versions syncedAt).versions
    (versions.get? name = (previousVersions loaded).get? name ∧ out.2.get? name = store.get? name) ∨
    (versions.get? name = none ∧ out.2.get? name = none) ∨
    ∃ version delivery write, versions.get? name = some version ∧ out.2.get? name = some delivery ∧
      DeliversOf pulled delivery write ∧ ∃ found ∈ source, found.version = version := by
  obtain ⟨hprepared, hdeletes⟩ := prepareWork_spec (fun _ _ h => (writesOf_get h).2) hwork
  have hdisjoint : ∀ name version, work.versions.get? name = some version → name ∉ work.deletes := by
    intro name version hget hmem
    obtain ⟨entry, hentry, rfl, hwrites⟩ := hprepared.planned name version hget
    obtain ⟨other, hother, hdelete, hname⟩ := (hdeletes _).mp hmem
    exact (computePlan_write hplan hentry hwrites).2 other hother hdelete hname
  -- What the target holds of a name the driver has reported.
  let f : JsString → Option Delivery := fun name =>
    if name ∈ work.deletes then none
    else (work.writes.find? fun w => w.name = name).map target.driver.delivery
  have hdelivered := runDriver_delivered vendor target work store f
    (fun w hw => by
      obtain ⟨hpulled, version, hversion⟩ := hprepared.write w hw
      have hnot := hdisjoint _ _ hversion
      refine ⟨?_, hnot⟩
      cases hfind : work.writes.find? fun w' => w'.name = w.name with
      | none => exact absurd (List.find?_eq_none.mp hfind w hw) (by simp)
      | some w' =>
        have hname : w'.name = w.name := by simpa using List.find?_some hfind
        have hpulled' := (hprepared.write w' (List.mem_of_find?_eq_some hfind)).1
        rw [hname] at hpulled'
        have hsame : w'.toDecryptedVariable = w.toDecryptedVariable := Option.some.inj (hpulled'.symm.trans hpulled)
        simp only [f, if_neg hnot, hfind, Option.map_some, syncWrite_ext hsame])
    (fun name hname => if_pos hname)
  intro out versions
  have hversions := nextReceipt_get target loaded out.1 work.versions syncedAt name
  have hheld := hdelivered.held name
  change versions.get? name = _ at hversions
  by_cases hwritten : name ∈ out.1.written
  · rw [if_pos hwritten] at hversions
    rw [if_pos (Or.inl hwritten)] at hheld
    refine Or.inr (Or.inr ?_)
    obtain ⟨delivery, hdelivery⟩ := Option.isSome_iff_exists.mp (hdelivered.written name hwritten)
    rw [hdelivery] at hheld
    simp only [f] at hdelivery
    split_ifs at hdelivery
    obtain ⟨write, hfind, rfl⟩ := Option.map_eq_some_iff.mp hdelivery
    obtain ⟨hpulled, version, hversion⟩ := hprepared.write write (List.mem_of_find?_eq_some hfind)
    have hname : write.name = name := by simpa using List.find?_some hfind
    obtain ⟨entry, hentry, -, hwrites⟩ := hprepared.planned _ version hversion
    obtain ⟨⟨found, hfound, -, hat⟩, -⟩ := computePlan_write hplan hentry hwrites
    obtain ⟨hid, hof⟩ := delivery_source target.driver write
    dsimp only at hversion
    rw [← hname, hversion, Option.getD_some, hname] at hversions
    exact ⟨version, _, write.toDecryptedVariable, hversions, hheld,
      ⟨(writesOf_get hpulled).1, hid, hof, delivery_content target.driver write⟩, found, hfound, hat⟩
  · rw [if_neg hwritten] at hversions
    by_cases hdeleted : name ∈ out.1.deleted
    · rw [if_pos hdeleted] at hversions
      rw [if_pos (Or.inr hdeleted), hdelivered.deleted name hdeleted] at hheld
      exact Or.inr (Or.inl ⟨hversions, hheld⟩)
    · rw [if_neg hdeleted] at hversions
      rw [if_neg (not_or.mpr ⟨hwritten, hdeleted⟩)] at hheld
      exact Or.inl ⟨hversions, hheld⟩

theorem maxVersions_safe : maxVersions ≤ Json.maxSafeInteger := by decide

theorem honest_apply {apply : Apply} {planned pulled : Source} {stored stored' : Option Json} {store store' : Store}
    (hplanned : WellFormed planned)
    (h : Honest pulled (recordedVersions apply.target.name stored) store)
    (happly : syncApplyOp apply planned pulled stored store = .ok (stored', store')) :
    Honest pulled (recordedVersions apply.target.name stored') store' := by
  unfold syncApplyOp at happly
  obtain ⟨loaded, hload, happly⟩ := bind_ok happly
  obtain ⟨plan, hplan, happly⟩ := bind_ok happly
  obtain ⟨-, -, happly⟩ := bind_ok happly
  obtain ⟨work, hwork, happly⟩ := bind_ok happly
  split_ifs at happly with hnothing htoken
  · cases happly
    exact h
  · obtain ⟨-, -, happly⟩ := bind_ok happly
    cases happly
  · obtain ⟨-, -, happly⟩ := bind_ok happly
    have hcases := driver_cases hplan hwork apply.vendor store apply.syncedAt
    generalize hout : runDriver apply.vendor apply.target work store = out at happly hcases
    obtain ⟨result, held⟩ := out
    dsimp only at happly hcases
    cases happly
    generalize hreceipt : nextReceipt apply.target loaded result work.versions apply.syncedAt = receipt at hcases
    rw [loadReceipt_versions hload] at hcases
    have hactive : ∀ found ∈ planned.sourceVariables, 1 ≤ found.version ∧ found.version ≤ maxVersions := by
      intro found hfound
      obtain ⟨id, row, hget, hactive, -, hversion⟩ := mem_sourceVariables hfound
      rw [← hversion]
      exact ⟨((Variable.isActive_iff row).mp hactive).2, hplanned.bounded id row hget⟩
    have hbounded : ∀ name version, receipt.versions.get? name = some version → 1 ≤ version ∧ version ≤ maxVersions := by
      intro name version hget
      rcases hcases name with ⟨hsame, -⟩ | ⟨hnone, -⟩ | ⟨version', _, _, hversion, -, -, found, hfound, rfl⟩
      · exact h.bounded name version (hsame ▸ hget)
      · rw [hnone] at hget
        cases hget
      · cases hget.symm.trans hversion
        exact hactive found hfound
    have hreceiptTarget : receipt.target = apply.target.name := by rw [← hreceipt]; rfl
    have hsave := recordedVersions_save hload hreceiptTarget fun name n hget =>
      ⟨(hbounded name n hget).1, (hbounded name n hget).2.trans maxVersions_safe⟩
    refine ⟨fun name => ?_, fun name version hget => ?_, fun name delivery hdelivery => ?_⟩
    · rw [hsave]
      rcases hcases name with ⟨hsame, hheld⟩ | ⟨hnone, hheld⟩ | ⟨version, delivery, _, hversion, hheld, -⟩
      · rw [hsame, hheld, h.same]
      · rw [hnone, hheld]
        rfl
      · rw [hversion, hheld]
        rfl
    · exact hbounded name version (hsave name ▸ hget)
    · rcases hcases name with ⟨-, hheld⟩ | ⟨-, hheld⟩ | ⟨version, delivery', write, -, hheld, hof, -⟩
      · exact h.origin name delivery (hheld ▸ hdelivery)
      · rw [hheld] at hdelivery
        cases hdelivery
      · cases hdelivery.symm.trans hheld
        obtain ⟨row, hget, hrow, -, hversion, hvalue⟩ := mem_pullVariables hof.pulled
        have hat : delivery.version = row.version := hof.version.trans hversion.symm
        refine ⟨row, hof.variableId ▸ hget, Or.inr ⟨?_, hat.le, ?_⟩⟩
        · rw [hat]
          exact ((Variable.isActive_iff row).mp hrow).2
        · rw [hat, hvalue]
          exact hof.content

/-! ## Runs -/

structure HonestState (s : SyncState) : Prop where
  source : WellFormed s.source
  receipt : ∀ target, Honest s.source (s.versionsOf target) (s.storeOf target)

theorem honestState_start : HonestState .start := ⟨wellFormed_empty, fun _ => honest_empty _⟩

theorem honest_operations (s : SyncState) (ops : List SourceOp) {source : Source} (hsource : WellFormed source)
    (h : ∀ target, Honest source (s.versionsOf target) (s.storeOf target)) :
    WellFormed (ops.foldl Source.operate source) ∧
      ∀ target, Honest (ops.foldl Source.operate source) (s.versionsOf target) (s.storeOf target) := by
  induction ops generalizing source with
  | nil => exact ⟨hsource, h⟩
  | cons op rest ih => exact ih (wellFormed_operate hsource op) fun target => honest_operate op (h target)

theorem honestState_step {s : SyncState} (event : SyncEvent) (h : HonestState s) : HonestState (s.step event) := by
  cases event with
  | operate op =>
    obtain ⟨hsource, hreceipt⟩ := honest_operations s [op] h.source h.receipt
    exact ⟨hsource, hreceipt⟩
  | apply apply =>
    obtain ⟨hsource, hreceipt⟩ := honest_operations s apply.between h.source h.receipt
    unfold SyncState.step
    dsimp only
    cases hresult : syncApplyOp apply s.source (apply.between.foldl Source.operate s.source)
        (s.receipts.get? apply.target.name) (s.storeOf apply.target.name) with
    | error reason => exact ⟨hsource, hreceipt⟩
    | ok result =>
      obtain ⟨stored, store⟩ := result
      dsimp only
      refine ⟨hsource, fun target => ?_⟩
      have happly := honest_apply h.source (hreceipt apply.target.name) hresult
      unfold SyncState.versionsOf SyncState.storeOf at hreceipt ⊢
      dsimp only
      by_cases htarget : target = apply.target.name
      · subst htarget
        rw [OrderedMap.get?_set_self, Option.getD_some]
        cases stored with
        | some text => rw [Option.elim_some, OrderedMap.get?_set_self]; exact happly
        | none => rw [Option.elim_none, OrderedMap.get?_delete_self]; exact happly
      · rw [OrderedMap.get?_set_ne _ _ htarget]
        cases stored with
        | some text => rw [Option.elim_some, OrderedMap.get?_set_ne _ _ htarget]; exact hreceipt target
        | none => rw [Option.elim_none, OrderedMap.get?_delete, if_neg htarget]; exact hreceipt target

theorem honestState_run {s : SyncState} (events : List SyncEvent) (h : HonestState s) : HonestState (s.run events) := by
  induction events generalizing s with
  | nil => exact h
  | cons event rest ih => exact ih (honestState_step event h)

/-! ## What a plan may claim -/

/-- The target holds under the name the current value of the variable that bears it. -/
def Held (s : SyncState) (target name : JsString) : Prop :=
  ∃ e ∈ s.source.entries, e.2.isActive = true ∧ e.2.name = name ∧
    ∃ delivery ∈ (s.storeOf target).get? name, delivery.content = e.2.valueAt e.2.version

/-- Every name the target holds is recorded: a plan that is not refused sends it again, leaves it or deletes it. -/
def Recorded (s : SyncState) (target : SyncTarget) (loaded : Option SyncReceipt) (plan : SyncPlan) : Prop :=
  ∀ name delivery, (s.storeOf target.name).get? name = some delivery →
    (∃ version, (previousVersions loaded).get? name = some version) ∧
      (reviewPlan plan = .ok () → ∃ entry ∈ plan.entries, (∃ v w, entry = .update name v w) ∨
        (∃ v, entry = .unchanged name v) ∨ ∃ v, entry = .delete name v)

structure Accounted (s : SyncState) (target : SyncTarget) (loaded : Option SyncReceipt) (plan : SyncPlan) : Prop where
  unchanged : ∀ name version, .unchanged name version ∈ plan.entries → Held s target.name name
  recorded : Recorded s target loaded plan

/-- The variable that bears the name is the one delivered last under it, at the recorded version or a later one. -/
def SameBearer (s : SyncState) (target name : JsString) : Prop :=
  ∃ delivery ∈ (s.storeOf target).get? name,
    (∃ row ∈ s.source.get? delivery.variableId, row.isActive = true ∧ row.name = name) ∧
      ∀ version ∈ (s.versionsOf target).get? name, version ≤ delivery.version

/-- If the name's value was delivered as text, it has no byte order mark in front. -/
def Unmarked (s : SyncState) (target name : JsString) : Prop :=
  ∀ delivery ∈ (s.storeOf target).get? name, ∀ row ∈ s.source.get? delivery.variableId,
    (delivery.asText && Utf8.isMarked (row.valueAt delivery.version)) = false

instance (s : SyncState) (target name : JsString) : Decidable (Held s target name) :=
  inferInstanceAs (Decidable (∃ _ ∈ _, _))

instance (s : SyncState) (target name : JsString) : Decidable (SameBearer s target name) :=
  inferInstanceAs (Decidable (∃ _ ∈ _, _))

instance (s : SyncState) (target name : JsString) : Decidable (Unmarked s target name) :=
  inferInstanceAs (Decidable (∀ _ ∈ _, _))

/-- A name `unchanged` whose variable was delivered last: the recorded version is the delivered one. -/
theorem delivered_current {s : SyncState} (h : HonestState s) {target : SyncTarget} {declared : List DeclaredVariable}
    {loaded : Option SyncReceipt} {plan : SyncPlan}
    (hload : loadReceipt target (s.receipts.get? target.name) = .ok loaded)
    (hplan : computePlan target s.source.sourceVariables declared loaded = .ok plan) {name : JsString} {version : Nat}
    (hmem : .unchanged name version ∈ plan.entries) (hbearer : SameBearer s target.name name) :
    ∃ delivery row, (s.storeOf target.name).get? name = some delivery ∧
      s.source.get? delivery.variableId = some row ∧ row.isActive = true ∧ row.name = name ∧
      delivery.version = row.version ∧
      delivery.content = deliveredContent delivery.asText (row.valueAt row.version) := by
  obtain ⟨delivery, hdelivery, ⟨row, hrow, hactive, hname⟩, hrecorded⟩ := hbearer
  have hlive := (Variable.isActive_iff row).mp hactive
  obtain ⟨found, hfound, rfl, hat⟩ := computePlan_unchanged hplan hmem
  obtain ⟨id, other, hother, hotherActive, hotherName, hversion⟩ := mem_sourceVariables hfound
  -- Only one variable bears the name.
  have hid := h.source.distinct _ _ _ _ hother hrow ((Variable.isActive_iff other).mp hotherActive).1 hlive.1
    (hotherName.trans hname.symm)
  subst hid
  cases hother.symm.trans hrow
  rw [loadReceipt_versions hload] at hat
  have hle := hrecorded _ hat
  obtain ⟨row', hrow', hcase⟩ := (h.receipt target.name).origin _ delivery hdelivery
  cases hrow.symm.trans hrow'
  rcases hcase with hdead | ⟨-, hge, hcontent⟩
  · rw [hlive.1] at hdead
    cases hdead
  · have hcurrent : delivery.version = row.version := le_antisymm hge (hversion ▸ hle)
    exact ⟨delivery, row, hdelivery, hrow, hactive, hname, hcurrent, hcurrent ▸ hcontent⟩

theorem held_iff {s : SyncState} (h : HonestState s) {target : SyncTarget} {declared : List DeclaredVariable}
    {loaded : Option SyncReceipt} {plan : SyncPlan}
    (hload : loadReceipt target (s.receipts.get? target.name) = .ok loaded)
    (hplan : computePlan target s.source.sourceVariables declared loaded = .ok plan) {name : JsString} {version : Nat}
    (hmem : .unchanged name version ∈ plan.entries) (hbearer : SameBearer s target.name name) :
    Held s target.name name ↔ Unmarked s target.name name := by
  obtain ⟨delivery, row, hdelivery, hrow, hactive, hname, hversion, hcontent⟩ :=
    delivered_current h hload hplan hmem hbearer
  constructor
  · rintro ⟨⟨id, other⟩, hother, hotherActive, hotherName, found, hfound, hvalue⟩ held hheld bearer hbearer
    cases hdelivery.symm.trans hfound
    cases hdelivery.symm.trans hheld
    cases hrow.symm.trans hbearer
    have hget := (OrderedMap.mem_entries _ _ _).mp hother
    have hid := h.source.distinct _ _ _ _ hget hrow ((Variable.isActive_iff other).mp hotherActive).1
      ((Variable.isActive_iff row).mp hactive).1 (hotherName.trans hname.symm)
    subst hid
    cases hget.symm.trans hrow
    rw [hversion, ← deliveredContent_eq_iff, ← hcontent]
    exact hvalue
  · intro hunmarked
    have hwhole := (deliveredContent_eq_iff _ _).mpr (hunmarked delivery hdelivery row hrow)
    rw [hversion, ← hcontent] at hwhole
    exact ⟨(delivery.variableId, row), (OrderedMap.mem_entries _ _ _).mpr hrow, hactive, hname, delivery, hdelivery, hwhole⟩

/-- In every run a plan knows every name the target holds, and a name it leaves to the variable delivered last
holds that variable's value. -/
theorem receipt_accounts (events : List SyncEvent) (target : SyncTarget) {loaded : Option SyncReceipt}
    {plan : SyncPlan}
    (hload : loadReceipt target ((SyncState.start.run events).receipts.get? target.name) = .ok loaded)
    (hplan : computePlan target (SyncState.start.run events).source.sourceVariables
      (SyncState.start.run events).source.declaredVariables loaded = .ok plan) :
    Recorded (SyncState.start.run events) target loaded plan ∧
      ∀ name version, .unchanged name version ∈ plan.entries →
        SameBearer (SyncState.start.run events) target.name name →
        (Held (SyncState.start.run events) target.name name ↔ Unmarked (SyncState.start.run events) target.name name) := by
  have hhonest := honestState_run events honestState_start
  generalize SyncState.start.run events = s at hload hplan hhonest
  refine ⟨fun name delivery hdelivery => ?_, fun name version hmem hbearer => held_iff hhonest hload hplan hmem hbearer⟩
  have hversions := loadReceipt_versions hload
  change previousVersions loaded = s.versionsOf target.name at hversions
  have hsome : ((s.versionsOf target.name).get? name).isSome := by
    rw [(hhonest.receipt target.name).same, hdelivery]
    rfl
  obtain ⟨version, hversion⟩ := Option.isSome_iff_exists.mp hsome
  rw [← hversions] at hversion
  refine ⟨⟨version, hversion⟩, fun hreview => ?_⟩
  obtain ⟨entry, hentry, -, hcases⟩ := computePlan_recorded hplan hversion
  exact ⟨entry, hentry, hcases (reviewPlan_blocked hreview entry hentry)⟩

/-! ## Names exchanged, and exchanged back -/

def webTarget : SyncTarget where
  name := lit "web"
  preset := .vercel
  driver := .http ⟨.upsert 10 (by decide), false, ⟨none, false, .kept, none⟩⟩
  selection := .all
  exclude := []
  production := false

/-- The batch fails, with all but one name taken. -/
def deliverWeb : Apply :=
  ⟨webTarget, false, true, [], ⟨fun _ => true, fun _ name => name ≠ lit "C"⟩, lit "now"⟩

def deliveredTwo : List SyncEvent :=
  [.operate (.create (lit "1") (lit "A") false (some [97])), .operate (.create (lit "2") (lit "B") false (some [98])),
    .operate (.create (lit "3") (lit "C") false (some [99])), .apply deliverWeb]

def webReceipt : SyncReceipt := ⟨lit "web", .vercel, lit "now", .ofEntries [(lit "A", 1), (lit "B", 1)]⟩

/-- A and B exchange their names through a third, and take them back; then A is pushed. -/
def exchangedBack : List SyncEvent :=
  deliveredTwo ++ [.operate (.rename (lit "1") (lit "T") false), .operate (.rename (lit "2") (lit "A") false),
    .operate (.rename (lit "1") (lit "B") false), .operate (.rename (lit "1") (lit "T") false),
    .operate (.rename (lit "2") (lit "B") false), .operate (.rename (lit "1") (lit "A") false),
    .operate (.push (lit "1") [100])]

def exchangedBackPlan : SyncPlan := ⟨[.update (lit "A") 2 1, .unchanged (lit "B") 1, .add (lit "C") 1], [], []⟩

theorem exchanged_back_accounts :
    Recorded (SyncState.start.run exchangedBack) webTarget (some webReceipt) exchangedBackPlan ∧
      Held (SyncState.start.run exchangedBack) webTarget.name (lit "B") := by
  obtain ⟨hrecorded, hheld⟩ := @receipt_accounts exchangedBack webTarget (some webReceipt) exchangedBackPlan
    (by decide +kernel) (by decide +kernel)
  exact ⟨hrecorded, (hheld (lit "B") 1 (by decide) (by decide +kernel)).mpr (by decide +kernel)⟩

/-- Two names exchanged through a third. -/
def swappedAfter : List SyncEvent :=
  deliveredTwo ++ [.operate (.rename (lit "1") (lit "T") false), .operate (.rename (lit "2") (lit "A") false),
    .operate (.rename (lit "1") (lit "B") false)]

def swappedPlan : SyncPlan := ⟨[.unchanged (lit "A") 1, .unchanged (lit "B") 1, .add (lit "C") 1], [], []⟩

/-- The plan leaves both names, and the target holds each value under the other's name. -/
theorem swapped_after_unaccounted :
    loadReceipt webTarget ((SyncState.start.run swappedAfter).receipts.get? webTarget.name) = .ok (some webReceipt) ∧
    computePlan webTarget (SyncState.start.run swappedAfter).source.sourceVariables
      (SyncState.start.run swappedAfter).source.declaredVariables (some webReceipt) = .ok swappedPlan ∧
    ¬ Accounted (SyncState.start.run swappedAfter) webTarget (some webReceipt) swappedPlan := by
  refine ⟨by decide +kernel, by decide +kernel, fun h => ?_⟩
  have hheld : ¬ Held (SyncState.start.run swappedAfter) webTarget.name (lit "A") := by decide +kernel
  exact hheld (h.unchanged (lit "A") 1 (by decide))

-- A byte order mark is lost on the way.
example : ¬ Held (SyncState.start.run [.operate (.create (lit "1") (lit "A") false (some [0xEF, 0xBB, 0xBF, 97])),
    .apply deliverWeb]) webTarget.name (lit "A") := by decide +kernel

end Maruhi.Sync
