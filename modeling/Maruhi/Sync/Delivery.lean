import Maruhi.Lib.Run
import Maruhi.Sync.Source

/-!
# What an apply delivers, and what its receipt says

One lemma per function of the plan, the work, the driver and the receipt.
-/

open Text Run

namespace Maruhi.Sync

/-! ## The plan -/

theorem sourceByName_get {source : List SourceVariable} {name : JsString} {entry : SourceVariable}
    (h : (sourceByName source).get? name = some entry) : entry ∈ source ∧ entry.name = name := by
  obtain ⟨e, he, heq⟩ := List.mem_map.mp (OrderedMap.mem_of_get?_ofEntries h)
  cases heq
  exact ⟨he, rfl⟩

theorem writesOf_get {pulled : List DecryptedVariable} {name : JsString} {write : DecryptedVariable}
    (h : (writesOf pulled).get? name = some write) : write ∈ pulled ∧ write.name = name := by
  obtain ⟨e, he, heq⟩ := List.mem_map.mp (OrderedMap.mem_of_get?_ofEntries h)
  cases heq
  exact ⟨he, rfl⟩

theorem classifyVariable_spec (constraints : ValueConstraints) (entry : SourceVariable) (previous : Option Nat) :
    (classifyVariable constraints entry previous).name = entry.name ∧
    (classifyVariable constraints entry previous).isDelete = false ∧
    (∀ v, (classifyVariable constraints entry previous).writes? = some v → v = entry.version) ∧
    (∀ n v, classifyVariable constraints entry previous = .unchanged n v → previous = some entry.version) ∧
    (previous.isSome → (classifyVariable constraints entry previous).isBlocked = false →
      (∃ v w, classifyVariable constraints entry previous = .update entry.name v w) ∨
      ∃ v, classifyVariable constraints entry previous = .unchanged entry.name v) := by
  unfold classifyVariable
  split_ifs with hrule hempty
  · simp [PlanEntry.name, PlanEntry.isDelete, PlanEntry.writes?, PlanEntry.isBlocked]
  · simp [PlanEntry.name, PlanEntry.isDelete, PlanEntry.writes?, PlanEntry.isBlocked]
  · cases constraints.maxBytes.filter fun maxBytes => decide (maxBytes < entry.byteLength) with
    | some maxBytes => simp [PlanEntry.name, PlanEntry.isDelete, PlanEntry.writes?, PlanEntry.isBlocked]
    | none =>
      cases previous with
      | none => simp [PlanEntry.name, PlanEntry.isDelete, PlanEntry.writes?]
      | some previousVersion =>
        by_cases h : previousVersion = entry.version
        · simp [h, PlanEntry.name, PlanEntry.isDelete, PlanEntry.writes?]
        · simp [h, PlanEntry.name, PlanEntry.isDelete, PlanEntry.writes?]

theorem mem_computePlan {target : SyncTarget} {source : List SourceVariable} {declared : List DeclaredVariable}
    {receipt : Option SyncReceipt} {plan : SyncPlan} (h : computePlan target source declared receipt = .ok plan) :
    ∃ selected, selectNames target (sourceByName source) (declaredByName declared) = .ok selected ∧
      ∀ entry, entry ∈ plan.entries ↔
        (∃ name ∈ selected, ∃ found, (sourceByName source).get? name = some found ∧
          classifyVariable target.driver.constraints found ((previousVersions receipt).get? name) = entry) ∨
        ∃ name version, (previousVersions receipt).get? name = some version ∧
          (name ∉ selected ∨ (sourceByName source).get? name = none) ∧ entry = .delete name version := by
  unfold computePlan at h
  obtain ⟨selected, hselected, h⟩ := bind_ok h
  refine ⟨selected, hselected, fun entry => ?_⟩
  cases h
  dsimp only
  rw [(List.perm_insertionSort _ _).mem_iff, List.mem_append]
  refine or_congr ?_ ?_
  · simp only [List.mem_filterMap, Option.map_eq_some_iff]
  · rw [List.mem_filterMap]
    constructor
    · rintro ⟨⟨name, version⟩, hmem, hentry⟩
      split_ifs at hentry with hcase
      cases hentry
      refine ⟨name, version, (OrderedMap.mem_entries _ _ _).mp hmem, ?_, rfl⟩
      simpa [OrderedMap.has] using hcase
    · rintro ⟨name, version, hget, hcase, rfl⟩
      refine ⟨(name, version), (OrderedMap.mem_entries _ _ _).mpr hget, ?_⟩
      rw [if_pos]
      simpa [OrderedMap.has] using hcase

theorem computePlan_write {target : SyncTarget} {source : List SourceVariable} {declared : List DeclaredVariable}
    {receipt : Option SyncReceipt} {plan : SyncPlan} (h : computePlan target source declared receipt = .ok plan)
    {entry : PlanEntry} (hmem : entry ∈ plan.entries) {version : Nat} (hwrites : entry.writes? = some version) :
    (∃ found ∈ source, found.name = entry.name ∧ found.version = version) ∧
      ∀ other ∈ plan.entries, other.isDelete = true → other.name ≠ entry.name := by
  obtain ⟨selected, -, hplan⟩ := mem_computePlan h
  rcases (hplan entry).mp hmem with ⟨name, hname, found, hfound, rfl⟩ | ⟨name, previous, -, -, rfl⟩
  · obtain ⟨hsource, rfl⟩ := sourceByName_get hfound
    obtain ⟨hentry, -, hversion, -, -⟩ :=
      classifyVariable_spec target.driver.constraints found ((previousVersions receipt).get? found.name)
    refine ⟨⟨found, hsource, hentry.symm, (hversion version hwrites).symm⟩, fun other hother hdelete => ?_⟩
    rw [hentry]
    rcases (hplan other).mp hother with ⟨name', -, found', -, rfl⟩ | ⟨name', previous, -, hcase, rfl⟩
    · rw [(classifyVariable_spec _ _ _).2.1] at hdelete
      exact absurd hdelete (by simp)
    · rintro rfl
      rcases hcase with hcase | hcase
      · exact hcase hname
      · exact absurd (hfound.symm.trans hcase) (by simp)
  · simp [PlanEntry.writes?] at hwrites

theorem computePlan_unchanged {target : SyncTarget} {source : List SourceVariable} {declared : List DeclaredVariable}
    {receipt : Option SyncReceipt} {plan : SyncPlan} (h : computePlan target source declared receipt = .ok plan)
    {name : JsString} {version : Nat} (hmem : .unchanged name version ∈ plan.entries) :
    ∃ found ∈ source, found.name = name ∧ (previousVersions receipt).get? name = some found.version := by
  obtain ⟨selected, -, hplan⟩ := mem_computePlan h
  rcases (hplan _).mp hmem with ⟨name', -, found, hfound, hentry⟩ | ⟨_, _, -, -, hentry⟩
  · obtain ⟨hsource, rfl⟩ := sourceByName_get hfound
    obtain ⟨hname, -, -, hunchanged, -⟩ :=
      classifyVariable_spec target.driver.constraints found ((previousVersions receipt).get? found.name)
    rw [hentry, PlanEntry.name] at hname
    subst hname
    exact ⟨found, hsource, rfl, hunchanged _ _ hentry⟩
  · cases hentry

theorem computePlan_recorded {target : SyncTarget} {source : List SourceVariable} {declared : List DeclaredVariable}
    {receipt : Option SyncReceipt} {plan : SyncPlan} (h : computePlan target source declared receipt = .ok plan)
    {name : JsString} {version : Nat} (hget : (previousVersions receipt).get? name = some version) :
    ∃ entry ∈ plan.entries, entry.name = name ∧ (entry.isBlocked = false →
      (∃ v w, entry = .update name v w) ∨ (∃ v, entry = .unchanged name v) ∨ ∃ v, entry = .delete name v) := by
  obtain ⟨selected, -, hplan⟩ := mem_computePlan h
  cases hfound : (sourceByName source).get? name with
  | none =>
    refine ⟨.delete name version, (hplan _).mpr (Or.inr ⟨name, version, hget, Or.inr hfound, rfl⟩), rfl, fun _ => ?_⟩
    exact Or.inr (Or.inr ⟨version, rfl⟩)
  | some found =>
    by_cases hname : name ∈ selected
    · obtain ⟨-, rfl⟩ := sourceByName_get hfound
      obtain ⟨hentry, -, -, -, hcases⟩ :=
        classifyVariable_spec target.driver.constraints found ((previousVersions receipt).get? found.name)
      refine ⟨_, (hplan _).mpr (Or.inl ⟨_, hname, found, hfound, rfl⟩), hentry, fun hblocked => ?_⟩
      rcases hcases (by rw [hget]; rfl) hblocked with hupdate | hunchanged
      · exact Or.inl hupdate
      · exact Or.inr (Or.inl hunchanged)
    · refine ⟨.delete name version, (hplan _).mpr (Or.inr ⟨name, version, hget, Or.inl hname, rfl⟩), rfl, fun _ => ?_⟩
      exact Or.inr (Or.inr ⟨version, rfl⟩)

theorem reviewPlan_blocked {plan : SyncPlan} (h : reviewPlan plan = .ok ()) :
    ∀ entry ∈ plan.entries, entry.isBlocked = false := by
  intro entry hentry
  unfold reviewPlan at h
  dsimp only at h
  split_ifs at h with hmissing hblocked
  by_contra hb
  apply hblocked
  rw [List.length_pos_iff_exists_mem]
  exact ⟨entry, List.mem_filter.mpr ⟨hentry, by simpa using hb⟩⟩

/-! ## The work -/

/-- What the loop over the plan's entries has gathered. -/
structure Prepared (entries : List PlanEntry) (pulled : OrderedMap JsString DecryptedVariable)
    (work : List SyncWrite × OrderedMap JsString Nat) : Prop where
  write : ∀ w ∈ work.1, pulled.get? w.name = some w.toDecryptedVariable ∧ ∃ version, work.2.get? w.name = some version
  planned : ∀ name version, work.2.get? name = some version →
    ∃ entry ∈ entries, entry.name = name ∧ entry.writes? = some version

theorem prepareEntry_prepared {constraints : ValueConstraints} {entries : List PlanEntry}
    {pulled : OrderedMap JsString DecryptedVariable} (hkey : ∀ name w, pulled.get? name = some w → w.name = name)
    {work work' : List SyncWrite × OrderedMap JsString Nat} {entry : PlanEntry}
    (h : prepareEntry constraints pulled work entry = .ok work') (hwork : Prepared entries pulled work) :
    Prepared (entries ++ [entry]) pulled work' := by
  have hmono : ∀ name version, work.2.get? name = some version →
      ∃ e ∈ entries ++ [entry], e.name = name ∧ e.writes? = some version := fun name version hget => by
    obtain ⟨e, he, hname⟩ := hwork.planned name version hget
    exact ⟨e, List.mem_append_left _ he, hname⟩
  unfold prepareEntry at h
  cases hwrites : entry.writes? with
  | none =>
    rw [hwrites] at h
    cases h
    exact ⟨hwork.write, hmono⟩
  | some version =>
    rw [hwrites] at h
    dsimp only at h
    cases hget : pulled.get? entry.name with
    | none => rw [hget] at h; cases h
    | some write =>
      rw [hget] at h
      dsimp only at h
      split at h
      · cases h
      cases hproblem : checkValueConstraints constraints write.name write.value with
      | some problem => rw [hproblem] at h; cases h
      | none =>
        rw [hproblem] at h
        cases h
        have hname := hkey _ _ hget
        refine ⟨fun w hw => ?_, fun name version' hversion => ?_⟩
        · rw [OrderedMap.get?_set]
          rcases List.mem_append.mp hw with hw | hw
          · obtain ⟨hpulled, version', hversion⟩ := hwork.write w hw
            refine ⟨hpulled, ?_⟩
            split_ifs
            · exact ⟨version, rfl⟩
            · exact ⟨version', hversion⟩
          · rw [List.mem_singleton.mp hw, hname, if_pos rfl]
            exact ⟨hget, version, rfl⟩
        · rw [OrderedMap.get?_set] at hversion
          split_ifs at hversion with heq
          · cases hversion
            exact ⟨entry, by simp, heq.symm, hwrites⟩
          · exact hmono name version' hversion

theorem prepareWork_spec {target : SyncTarget} {plan : SyncPlan} {pulled : OrderedMap JsString DecryptedVariable}
    (hkey : ∀ name w, pulled.get? name = some w → w.name = name) {work : ApplyWork}
    (h : prepareWork target plan pulled = .ok work) :
    Prepared plan.entries pulled (work.writes, work.versions) ∧
      ∀ name, name ∈ work.deletes ↔ ∃ entry ∈ plan.entries, entry.isDelete = true ∧ entry.name = name := by
  unfold prepareWork at h
  obtain ⟨⟨writes, versions⟩, hfold, h⟩ := bind_ok h
  cases h
  refine ⟨?_, fun name => ?_⟩
  · have hempty : Prepared [] pulled ([], .empty) := ⟨by simp, by simp⟩
    exact reaches_induction (P := fun pre work => Prepared pre pulled work) hfold hempty
      fun pre e work work' _ _ hwork hstep => prepareEntry_prepared hkey hstep hwork
  · simp only [List.mem_map, List.mem_filter, and_assoc]

/-! ## The driver -/

theorem mem_slices {α : Type} (size fuel : Nat) (items : List α) {slice : List α} (h : slice ∈ slices size fuel items)
    {a : α} (ha : a ∈ slice) : a ∈ items := by
  induction fuel generalizing items with
  | zero => simp [slices] at h
  | succ fuel ih =>
    unfold slices at h
    split_ifs at h with hempty
    · simp at h
    · rcases List.mem_cons.mp h with rfl | h
      · exact List.mem_of_mem_take ha
      · exact List.mem_of_mem_drop (ih _ h)

/-- How the driver carries a value. -/
def TargetDriver.delivery : TargetDriver → SyncWrite → Delivery
  | exec spec, write => if spec.jsonObject then write.textDelivery else write.bytesDelivery
  | http _, write => write.textDelivery

/-- What a delivery holds of a value. -/
def deliveredContent (asText : Bool) (value : Bytes) : Bytes := if asText then Utf8.withoutMark value else value

theorem deliveredContent_eq_iff (asText : Bool) (value : Bytes) :
    deliveredContent asText value = value ↔ (asText && Utf8.isMarked value) = false := by
  cases asText with
  | false => simp [deliveredContent]
  | true => simp [deliveredContent, Utf8.withoutMark_eq_iff]

/-- The text of a value, written out again, is the value but for a byte order mark. -/
theorem delivery_content (driver : TargetDriver) (write : SyncWrite) :
    (driver.delivery write).content = deliveredContent (driver.delivery write).asText write.value := by
  have htext := Utf8.utf8Encode_textDecode write.decodes
  cases driver with
  | http spec => exact htext
  | exec spec =>
    unfold TargetDriver.delivery
    dsimp only
    split_ifs
    · exact htext
    · rfl

theorem delivery_source (driver : TargetDriver) (write : SyncWrite) :
    (driver.delivery write).variableId = write.variableId ∧ (driver.delivery write).version = write.version := by
  cases driver with
  | http spec => exact ⟨rfl, rfl⟩
  | exec spec =>
    unfold TargetDriver.delivery
    dsimp only
    split_ifs <;> exact ⟨rfl, rfl⟩

/-- What the requests carry is what the work says. -/
def Carries (carry : SyncWrite → Delivery) (writes : List SyncWrite) (deletes : List JsString)
    (item : JsString × Option Delivery) : Prop :=
  (∃ w ∈ writes, item = (w.name, some (carry w))) ∨ ∃ name ∈ deletes, item = (name, none)

theorem carries_deleteRequests {carry : SyncWrite → Delivery} {writes : List SyncWrite} {deletes : List JsString}
    {request : Request} (h : request ∈ deleteRequests deletes) :
    ∀ item ∈ request.items, Carries carry writes deletes item := by
  obtain ⟨name, hname, rfl⟩ := List.mem_map.mp h
  intro item hitem
  rw [List.mem_singleton.mp hitem]
  exact Or.inr ⟨name, hname, rfl⟩

theorem carries_items {writes : List SyncWrite} {deletes : List JsString} (along : Bool)
    {item : JsString × Option Delivery}
    (h : item ∈ textItems writes ++ if along then deleteItems deletes else []) :
    Carries SyncWrite.textDelivery writes deletes item := by
  rcases List.mem_append.mp h with h | h
  · obtain ⟨w, hw, rfl⟩ := List.mem_map.mp h
    exact Or.inl ⟨w, hw, rfl⟩
  · split_ifs at h
    · obtain ⟨name, hname, rfl⟩ := List.mem_map.mp h
      exact Or.inr ⟨name, hname, rfl⟩
    · cases h

theorem buildInvocations_carries (preset : ExecPreset) (writes : List SyncWrite) (deletes : List JsString) :
    ∀ request ∈ buildInvocations preset writes deletes, ∀ item ∈ request.items,
      Carries (TargetDriver.exec preset).delivery writes deletes item := by
  intro request hrequest
  unfold buildInvocations at hrequest
  unfold TargetDriver.delivery
  rcases List.mem_append.mp hrequest with h | h
  · by_cases hjson : preset.jsonObject
    · rw [if_pos hjson] at h
      simp only [hjson, if_true]
      obtain ⟨items, hitems, rfl⟩ := List.mem_map.mp h
      exact fun item hitem => carries_items _ (mem_slices _ _ _ hitems hitem)
    · rw [if_neg hjson] at h
      simp only [hjson]
      obtain ⟨w, hw, rfl⟩ := List.mem_map.mp h
      intro item hitem
      rw [List.mem_singleton.mp hitem]
      exact Or.inl ⟨w, hw, rfl⟩
  · split_ifs at h
    · cases h
    · exact carries_deleteRequests h

theorem buildBatches_carries (preset : HttpPreset) (writes : List SyncWrite) (deletes : List JsString) :
    ∀ request ∈ buildBatches preset writes deletes, ∀ item ∈ request.items,
      Carries (TargetDriver.http preset).delivery writes deletes item := by
  intro request hrequest
  unfold buildBatches at hrequest
  rcases List.mem_append.mp hrequest with h | h
  · obtain ⟨items, hitems, rfl⟩ := List.mem_map.mp h
    exact fun item hitem => carries_items _ (mem_slices _ _ _ hitems hitem)
  · split_ifs at h
    · cases h
    · exact carries_deleteRequests h

theorem foldl_land (f : JsString → Option Delivery) (items : List (JsString × Option Delivery))
    (hitems : ∀ item ∈ items, item.2 = f item.1) (store : Store) (name : JsString) :
    (items.foldl land store).get? name = if name ∈ items.map Prod.fst then f name else store.get? name := by
  induction items generalizing store with
  | nil => simp
  | cons item rest ih =>
    have hland : ∀ n, (land store item).get? n = if n = item.1 then f n else store.get? n := fun n => by
      unfold land
      have hitem := hitems item (by simp)
      cases hsnd : item.2 with
      | none =>
        dsimp only
        rw [OrderedMap.get?_delete]
        split_ifs with h
        · rw [h, ← hitem, hsnd]
        · rfl
      | some write =>
        dsimp only
        rw [OrderedMap.get?_set]
        split_ifs with h
        · rw [h, ← hitem, hsnd]
        · rfl
    rw [List.foldl_cons, ih (fun i hi => hitems i (by simp [hi])), hland, List.map_cons]
    by_cases h1 : name = item.1 <;> by_cases h2 : name ∈ rest.map Prod.fst <;> simp [h1, h2]

/-- The names reported so far, and what the target then holds. -/
structure Delivered (f : JsString → Option Delivery) (store : Store) (acc : DriverResult × Store) : Prop where
  written : ∀ name ∈ acc.1.written, (f name).isSome
  deleted : ∀ name ∈ acc.1.deleted, f name = none
  held : ∀ name, acc.2.get? name =
    if name ∈ acc.1.written ∨ name ∈ acc.1.deleted then f name else store.get? name

theorem runRequests_delivered (fails : Nat → Bool) (delivered : Nat → Request → List JsString) (deletes : List JsString)
    (f : JsString → Option Delivery) (store : Store)
    (hdelivered : ∀ i request, ∀ name ∈ delivered i request, name ∈ request.names) (requests : List Request)
    (hitems : ∀ request ∈ requests, ∀ item ∈ request.items,
      item.2 = f item.1 ∧ (item.1 ∈ deletes ↔ f item.1 = none)) (i : Nat) (acc : DriverResult × Store)
    (h : Delivered f store acc) : Delivered f store (runRequests fails delivered deletes i acc requests) := by
  induction requests generalizing i acc with
  | nil => exact h
  | cons request rest ih =>
    obtain ⟨result, held⟩ := acc
    have hrequest := hitems request (by simp)
    have hof : ∀ name ∈ delivered i request, (name ∈ deletes ↔ f name = none) := fun name hname => by
      obtain ⟨item, hitem, rfl⟩ := List.mem_map.mp (hdelivered i request name hname)
      exact (hrequest item hitem).2
    have hstep : ∀ failure, Delivered f store
        (⟨result.written ++ (delivered i request).filter (fun name => !deletes.contains name),
          result.deleted ++ (delivered i request).filter (fun name => deletes.contains name), failure⟩,
        (request.items.filter fun item => (delivered i request).contains item.1).foldl land held) := by
      intro failure
      refine ⟨fun name hname => ?_, fun name hname => ?_, fun name => ?_⟩
      · rcases List.mem_append.mp hname with hname | hname
        · exact h.written name hname
        · obtain ⟨hmem, hnot⟩ := List.mem_filter.mp hname
          rw [Option.isSome_iff_ne_none, Ne, ← hof name hmem]
          simpa using hnot
      · rcases List.mem_append.mp hname with hname | hname
        · exact h.deleted name hname
        · obtain ⟨hmem, hin⟩ := List.mem_filter.mp hname
          exact (hof name hmem).mp (by simpa using hin)
      · have hnames : name ∈ (request.items.filter fun item => (delivered i request).contains item.1).map Prod.fst ↔
            name ∈ delivered i request := by
          constructor
          · intro hmem
            obtain ⟨item, hitem, rfl⟩ := List.mem_map.mp hmem
            simpa using (List.mem_filter.mp hitem).2
          · intro hmem
            obtain ⟨item, hitem, rfl⟩ := List.mem_map.mp (hdelivered i request name hmem)
            exact List.mem_map.mpr ⟨item, List.mem_filter.mpr ⟨hitem, by simpa using hmem⟩, rfl⟩
        have hheld := h.held name
        dsimp only at hheld ⊢
        rw [foldl_land f _ fun item hitem => (hrequest item (List.mem_of_mem_filter hitem)).1, hheld]
        by_cases hmem : name ∈ delivered i request
        · rw [if_pos (hnames.mpr hmem), if_pos]
          by_cases hdelete : name ∈ deletes
          · exact Or.inr (by simp [hmem, hdelete])
          · exact Or.inl (by simp [hmem, hdelete])
        · rw [if_neg (fun hin => hmem (hnames.mp hin))]
          simp [hmem]
    unfold runRequests
    dsimp only
    split_ifs
    · exact hstep _
    · exact ih (fun r hr => hitems r (by simp [hr])) _ _ (hstep _)

theorem runDriver_delivered (vendor : Vendor) (target : SyncTarget) (work : ApplyWork) (store : Store)
    (f : JsString → Option Delivery)
    (hwrites : ∀ w ∈ work.writes, f w.name = some (target.driver.delivery w) ∧ w.name ∉ work.deletes)
    (hdeletes : ∀ name ∈ work.deletes, f name = none) :
    Delivered f store (runDriver vendor target work store) := by
  have hcarries : ∀ item, Carries target.driver.delivery work.writes work.deletes item →
      item.2 = f item.1 ∧ (item.1 ∈ work.deletes ↔ f item.1 = none) := by
    rintro item (⟨w, hw, rfl⟩ | ⟨name, hname, rfl⟩)
    · obtain ⟨hf, hnot⟩ := hwrites w hw
      simp [hf, hnot]
    · simp [hdeletes name hname, hname]
  have hempty : Delivered f store (⟨[], [], none⟩, store) := ⟨by simp, by simp, by simp⟩
  unfold runDriver
  cases hdriver : target.driver with
  | exec spec =>
    rw [hdriver] at hcarries
    refine runRequests_delivered _ _ _ f store (fun i request name hname => ?_) _
      (fun request hrequest item hitem => hcarries item (buildInvocations_carries spec _ _ request hrequest item hitem))
      0 _ hempty
    split_ifs at hname
    · cases hname
    · exact hname
  | http spec =>
    rw [hdriver] at hcarries
    refine runRequests_delivered _ _ _ f store (fun i request name hname => ?_) _
      (fun request hrequest item hitem => hcarries item (buildBatches_carries spec _ _ request hrequest item hitem))
      0 _ hempty
    split_ifs at hname
    · exact List.mem_of_mem_filter hname
    · exact hname

/-! ## The receipt -/

theorem nextReceipt_get (target : SyncTarget) (previous : Option SyncReceipt) (result : DriverResult)
    (versions : OrderedMap JsString Nat) (syncedAt : JsString) (name : JsString) :
    (nextReceipt target previous result versions syncedAt).versions.get? name =
      if name ∈ result.written then some ((versions.get? name).getD 0)
      else if name ∈ result.deleted then none else (previousVersions previous).get? name := by
  unfold nextReceipt
  dsimp only
  rw [OrderedMap.get?_foldl_set_eq (fun n => n) (fun n => (versions.get? n).getD 0), OrderedMap.foldl_delete,
    OrderedMap.get?_without]
  by_cases hwritten : name ∈ result.written
  · have hfind : (result.written.reverse.find? fun n => decide (n = name)) = some name := by
      cases hfind : result.written.reverse.find? fun n => decide (n = name) with
      | none => exact absurd (List.find?_eq_none.mp hfind name (by simpa using hwritten)) (by simp)
      | some n => simpa using List.find?_some hfind
    simp [hfind, hwritten]
  · have hfind : (result.written.reverse.find? fun n => decide (n = name)) = none := by
      rw [List.find?_eq_none]
      rintro n hn hname
      simp only [decide_eq_true_eq] at hname
      subst hname
      exact hwritten (by simpa using hn)
    by_cases hdeleted : name ∈ result.deleted <;> simp [hfind, hwritten, hdeleted]

theorem sameVariables_get {a : Option SyncReceipt} {b : SyncReceipt} (h : sameVariables a b = true) (name : JsString) :
    (previousVersions a).get? name = b.versions.get? name := by
  unfold sameVariables at h
  cases a with
  | none =>
    simp only [decide_eq_true_eq, List.length_eq_zero_iff] at h
    have hnone : b.versions.get? name = none := OrderedMap.get?_eq_none_of_not_mem_keys (by rw [h]; simp)
    rw [hnone]
    rfl
  | some a =>
    simp only [decide_eq_true_eq] at h
    have hmem : ∀ e, e ∈ a.versions.entries ↔ e ∈ b.versions.entries := fun e => by
      have hleft : e ∈ sortedEntries a.versions ↔ e ∈ a.versions.entries := (List.perm_insertionSort _ _).mem_iff
      have hright : e ∈ sortedEntries b.versions ↔ e ∈ b.versions.entries := (List.perm_insertionSort _ _).mem_iff
      rw [← hleft, h, hright]
    refine Option.ext fun version => ?_
    change a.versions.get? name = some version ↔ _
    rw [← OrderedMap.mem_entries, hmem, OrderedMap.mem_entries]

/-- The versions on the receipt variable, none where it does not read. -/
def recordedVersions (target : JsString) (stored : Option Json) : OrderedMap JsString Nat :=
  match stored with
  | none => .empty
  | some text =>
    match decodeReceipt text target with
    | .ok receipt => receipt.versions
    | .error _ => .empty

theorem loadReceipt_versions {target : SyncTarget} {stored : Option Json} {loaded : Option SyncReceipt}
    (h : loadReceipt target stored = .ok loaded) : previousVersions loaded = recordedVersions target.name stored := by
  unfold loadReceipt at h
  unfold recordedVersions
  cases stored with
  | none => cases h; rfl
  | some text =>
    dsimp only at h ⊢
    cases hread : decodeReceipt text target.name with
    | error reason => rw [hread] at h; cases h
    | ok receipt =>
      rw [hread] at h
      dsimp only at h ⊢
      split_ifs at h
      cases h
      rfl

theorem recordedVersions_save {target : SyncTarget} {stored : Option Json} {loaded : Option SyncReceipt}
    (hload : loadReceipt target stored = .ok loaded) {receipt : SyncReceipt} (htarget : receipt.target = target.name)
    (hversions : ∀ name n, receipt.versions.get? name = some n → 1 ≤ n ∧ n ≤ Json.maxSafeInteger) (name : JsString) :
    (recordedVersions target.name (saveReceipt loaded stored receipt)).get? name = receipt.versions.get? name := by
  unfold saveReceipt
  split_ifs with hsame
  · rw [← loadReceipt_versions hload]
    exact sameVariables_get hsame name
  · obtain ⟨read, hread, -, hget⟩ := decodeReceipt_encode receipt hversions
    rw [htarget] at hread
    unfold recordedVersions
    dsimp only
    rw [hread]
    exact hget name

end Maruhi.Sync
