import Maruhi.Chain.History

/-!
# Recording leaves the past alone

What a list of tenures shows at a seq, and what each recorder does to it: at its own seq the change,
at every earlier one nothing.
-/

open Timeline

namespace Maruhi.Chain

/-- What is known of a member at a seq. -/
structure TenureView where
  role : Role
  scope : MemberScope
  devices : List (KeyFingerprintHex × ChainDevice)

def covers (tenure : TenureRecord) (seq : Nat) : Bool :=
  tenure.startSeq ≤ seq && tenure.endSeq.all fun endSeq => seq < endSeq

def activeEntries (devices : List DeviceRecord) (seq : Nat) : List (KeyFingerprintHex × ChainDevice) :=
  (devices.filter fun record => deviceActiveAt record seq).map fun record =>
    (record.device.keyFingerprintHex, deviceAt record seq)

def viewAt (tenure : TenureRecord) (seq : Nat) : Option TenureView :=
  (spanAt tenure seq).map fun span =>
    { role := span.role, scope := span.scope, devices := activeEntries tenure.devices seq }

/-- What the tenures show at `seq`: the view of the first that covers it. -/
def showsAt (tenures : List TenureRecord) (seq : Nat) : Option TenureView :=
  (tenures.find? fun tenure => covers tenure seq).bind fun tenure => viewAt tenure seq

/-! ## Nothing later than `n` -/

structure RecordBy (n : Nat) (record : DeviceRecord) : Prop where
  added : record.device.addedSeq ≤ n
  revoked : ∀ seq, record.revokedSeq = some seq → seq ≤ n
  changes : ∀ change ∈ record.capChanges, change.fromSeq ≤ n

structure TenureBy (n : Nat) (tenure : TenureRecord) : Prop where
  start : tenure.startSeq ≤ n
  ended : ∀ seq, tenure.endSeq = some seq → seq ≤ n
  spans : ∀ span ∈ tenure.spans, span.fromSeq ≤ n
  devices : ∀ record ∈ tenure.devices, RecordBy n record

theorem recordBy_mono {n n' : Nat} (hn : n ≤ n') {record : DeviceRecord} (h : RecordBy n record) :
    RecordBy n' record :=
  ⟨h.added.trans hn, fun seq hs => (h.revoked seq hs).trans hn, fun change hc => (h.changes change hc).trans hn⟩

theorem tenureBy_mono {n n' : Nat} (hn : n ≤ n') {tenure : TenureRecord} (h : TenureBy n tenure) :
    TenureBy n' tenure :=
  ⟨h.start.trans hn, fun seq hs => (h.ended seq hs).trans hn, fun span hs => (h.spans span hs).trans hn,
    fun record hr => recordBy_mono hn (h.devices record hr)⟩

theorem deviceActiveAt_of_by {n : Nat} {record : DeviceRecord} (h : RecordBy n record) {seq : Nat} (hn : n ≤ seq) :
    deviceActiveAt record seq = record.revokedSeq.isNone := by
  have hadded := h.added.trans hn
  unfold deviceActiveAt
  cases hr : record.revokedSeq with
  | none => simpa using hadded
  | some revoked =>
    have hle := (h.revoked revoked hr).trans hn
    simp only [Option.all_some, Option.isNone_some, Bool.and_eq_false_iff, decide_eq_false_iff_not]
    omega

theorem deviceAt_of_by {n : Nat} {record : DeviceRecord} (h : RecordBy n record) {seq : Nat} (hn : n ≤ seq) :
    deviceAt record seq = deviceAt record n := by
  unfold deviceAt
  rw [currentAt_of_all_le _ h.changes, currentAt_of_all_le _ fun change hc => (h.changes change hc).trans hn]

theorem activeEntries_of_by {n : Nat} {devices : List DeviceRecord} (h : ∀ record ∈ devices, RecordBy n record)
    {seq : Nat} (hn : n ≤ seq) : activeEntries devices seq = activeEntries devices n := by
  have hfilter : (devices.filter fun record => deviceActiveAt record seq) =
      devices.filter fun record => deviceActiveAt record n :=
    List.filter_congr fun record hr => by
      rw [deviceActiveAt_of_by (h record hr) hn, deviceActiveAt_of_by (h record hr) (le_refl n)]
  unfold activeEntries
  rw [hfilter]
  refine List.map_congr_left fun record hr => ?_
  rw [deviceAt_of_by (h record (List.mem_of_mem_filter hr)) hn]

theorem spanAt_of_by {n : Nat} {tenure : TenureRecord} (h : TenureBy n tenure) {seq : Nat} (hn : n ≤ seq) :
    spanAt tenure seq = tenure.spans.getLast? :=
  currentAt_of_all_le _ fun span hs => (h.spans span hs).trans hn

theorem viewAt_of_by {n : Nat} {tenure : TenureRecord} (h : TenureBy n tenure) {seq : Nat} (hn : n ≤ seq) :
    viewAt tenure seq = viewAt tenure n := by
  rw [viewAt, viewAt, spanAt_of_by h hn, spanAt_of_by h (le_refl n), activeEntries_of_by h.devices hn]

theorem covers_of_by {n : Nat} {tenure : TenureRecord} (h : TenureBy n tenure) {seq : Nat} (hn : n ≤ seq) :
    covers tenure seq = tenure.endSeq.isNone := by
  have hstart := h.start.trans hn
  unfold covers
  cases he : tenure.endSeq with
  | none => simpa using hstart
  | some endSeq =>
    have hle := (h.ended endSeq he).trans hn
    simp only [Option.all_some, Option.isNone_some, Bool.and_eq_false_iff, decide_eq_false_iff_not]
    omega

/-! ## The tenures of one user, beside the member -/

def memberView (member : ChainMember) : TenureView where
  role := member.role
  scope := member.scope
  devices := member.devices.entries

/-- The tenures at `n` of a user who is a member, or is not. -/
structure Tracks (n : Nat) (tenures : List TenureRecord) (member : Option ChainMember) : Prop where
  bounded : ∀ tenure ∈ tenures, TenureBy n tenure
  absent : member = none → ∀ tenure ∈ tenures, tenure.endSeq ≠ none
  present : ∀ m, member = some m → ∃ init tenure, tenures = init ++ [tenure] ∧
    (∀ closed ∈ init, closed.endSeq ≠ none) ∧ tenure.endSeq = none ∧ viewAt tenure n = some (memberView m)

theorem find?_closed {n : Nat} {tenures : List TenureRecord} (hby : ∀ tenure ∈ tenures, TenureBy n tenure)
    (hclosed : ∀ tenure ∈ tenures, tenure.endSeq ≠ none) {seq : Nat} (hn : n ≤ seq) :
    tenures.find? (fun tenure => covers tenure seq) = none := by
  rw [List.find?_eq_none]
  intro tenure ht
  rw [covers_of_by (hby tenure ht) hn]
  simpa using hclosed tenure ht

theorem tracks_nil (n : Nat) : Tracks n [] none :=
  ⟨fun _ h => (nomatch h), fun _ _ h => (nomatch h), fun _ h => (nomatch h)⟩

theorem showsAt_of_tracks {n : Nat} {tenures : List TenureRecord} {member : Option ChainMember}
    (h : Tracks n tenures member) : showsAt tenures n = member.map memberView := by
  cases member with
  | none => rw [showsAt, find?_closed h.bounded (h.absent rfl) (le_refl n)]; rfl
  | some m =>
    obtain ⟨init, tenure, rfl, hclosed, hopen, hview⟩ := h.present m rfl
    have hcovers : covers tenure n = true := by
      rw [covers_of_by (h.bounded tenure (by simp)) (le_refl n), hopen]; rfl
    rw [showsAt, List.find?_append,
      find?_closed (fun t ht => h.bounded t (by simp [ht])) hclosed (le_refl n), Option.none_or,
      List.find?_singleton, if_pos hcovers]
    exact hview

/-- A change recorded at `n + 1`: the new state is tracked, and the past shows what it showed. -/
structure Recorded (n : Nat) (tenures tenures' : List TenureRecord) (member' : Option ChainMember) : Prop where
  tracks : Tracks (n + 1) tenures' member'
  past : ∀ seq ≤ n, showsAt tenures' seq = showsAt tenures seq

section Recorders
variable {n : Nat} {tenures : List TenureRecord}

theorem recorded_same {member : Option ChainMember} (h : Tracks n tenures member) :
    Recorded n tenures tenures member := by
  refine ⟨⟨fun t ht => tenureBy_mono (Nat.le_succ n) (h.bounded t ht), h.absent, fun m hm => ?_⟩, fun _ _ => rfl⟩
  obtain ⟨init, tenure, heq, hclosed, hopen, hview⟩ := h.present m hm
  refine ⟨init, tenure, heq, hclosed, hopen, ?_⟩
  rw [viewAt_of_by (h.bounded tenure (by simp [heq])) (Nat.le_succ n), hview]

theorem recorded_start (h : Tracks n tenures none) {tenure : TenureRecord} {m : ChainMember}
    (hby : TenureBy (n + 1) tenure) (hstart : tenure.startSeq = n + 1) (hopen : tenure.endSeq = none)
    (hview : viewAt tenure (n + 1) = some (memberView m)) : Recorded n tenures (tenures ++ [tenure]) (some m) := by
  refine ⟨⟨?_, fun hm => (nomatch hm), fun m' hm' => ?_⟩, fun seq hseq => ?_⟩
  · intro t ht
    rcases List.mem_append.mp ht with ht | ht
    · exact tenureBy_mono (Nat.le_succ n) (h.bounded t ht)
    · rw [List.mem_singleton.mp ht]; exact hby
  · cases hm'
    exact ⟨tenures, tenure, rfl, h.absent rfl, hopen, hview⟩
  · have hahead : covers tenure seq = false := by
      simp only [covers, hstart, Bool.and_eq_false_iff, decide_eq_false_iff_not]
      omega
    rw [showsAt, List.find?_append, List.find?_cons_of_neg (by simp [hahead]), List.find?_nil, Option.or_none]
    rfl

theorem updateOpenTenure_snoc (f : TenureRecord → TenureRecord) (init : List TenureRecord) {tenure : TenureRecord}
    (hopen : tenure.endSeq = none) : updateOpenTenure f (init ++ [tenure]) = init ++ [f tenure] := by
  simp [updateOpenTenure, hopen]

theorem updateOpenTenure_closed (f : TenureRecord → TenureRecord) (h : ∀ tenure ∈ tenures, tenure.endSeq ≠ none) :
    updateOpenTenure f tenures = tenures := by
  unfold updateOpenTenure
  split
  · rfl
  · rename_i last hlast
    rw [if_neg (by simpa using h last (List.mem_of_getLast? hlast))]

/-- What the open tenure showed before `n + 1` is all that the past depends on. -/
theorem showsAt_snoc (init : List TenureRecord) {tenure tenure' : TenureRecord} {seq : Nat}
    (hcovers : covers tenure' seq = covers tenure seq) (hview : viewAt tenure' seq = viewAt tenure seq) :
    showsAt (init ++ [tenure']) seq = showsAt (init ++ [tenure]) seq := by
  unfold showsAt
  rw [List.find?_append, List.find?_append]
  cases init.find? fun tenure => covers tenure seq with
  | some t => rfl
  | none =>
    rw [Option.none_or, Option.none_or, List.find?_singleton, List.find?_singleton, hcovers]
    split_ifs
    · exact hview
    · rfl

/-- What a recorder has to show of the open tenure it rewrites at `n + 1`. -/
structure Rewritten (n : Nat) (tenure tenure' : TenureRecord) (m' : ChainMember) : Prop where
  bounded : TenureBy (n + 1) tenure'
  opened : tenure'.endSeq = none
  start : tenure'.startSeq = tenure.startSeq
  view : viewAt tenure' (n + 1) = some (memberView m')
  past : ∀ seq ≤ n, viewAt tenure' seq = viewAt tenure seq

theorem recorded_open {m m' : ChainMember} (h : Tracks n tenures (some m)) (f : TenureRecord → TenureRecord)
    (hf : ∀ tenure, TenureBy n tenure → tenure.endSeq = none → viewAt tenure n = some (memberView m) →
      Rewritten n tenure (f tenure) m') : Recorded n tenures (updateOpenTenure f tenures) (some m') := by
  obtain ⟨init, tenure, rfl, hclosed, hopen, hview⟩ := h.present m rfl
  have hnew := hf tenure (h.bounded tenure (by simp)) hopen hview
  rw [updateOpenTenure_snoc f init hopen]
  refine ⟨⟨?_, fun hm => (nomatch hm), fun x hx => ?_⟩, fun seq hseq => ?_⟩
  · intro t ht
    rcases List.mem_append.mp ht with ht | ht
    · exact tenureBy_mono (Nat.le_succ n) (h.bounded t (by simp [ht]))
    · rw [List.mem_singleton.mp ht]; exact hnew.bounded
  · cases hx
    exact ⟨init, f tenure, rfl, hclosed, hnew.opened, hnew.view⟩
  · exact showsAt_snoc init (by simp [covers, hnew.opened, hopen, hnew.start]) (hnew.past seq hseq)

theorem recorded_end {m : ChainMember} (h : Tracks n tenures (some m)) :
    Recorded n tenures (updateOpenTenure (fun tenure => { tenure with endSeq := some (n + 1) }) tenures) none := by
  obtain ⟨init, tenure, rfl, hclosed, hopen, hview⟩ := h.present m rfl
  have hby := tenureBy_mono (Nat.le_succ n) (h.bounded tenure (by simp))
  rw [updateOpenTenure_snoc _ init hopen]
  refine ⟨⟨?_, ?_, fun _ hm => (nomatch hm)⟩, fun seq hseq => ?_⟩
  · intro t ht
    rcases List.mem_append.mp ht with ht | ht
    · exact tenureBy_mono (Nat.le_succ n) (h.bounded t (by simp [ht]))
    · rw [List.mem_singleton.mp ht]
      exact ⟨hby.start, fun seq hs => by cases hs; exact le_refl _, hby.spans, hby.devices⟩
  · intro _ t ht
    rcases List.mem_append.mp ht with ht | ht
    · exact hclosed t ht
    · rw [List.mem_singleton.mp ht]; simp
  · refine showsAt_snoc init ?_ rfl
    have hlt : seq < n + 1 := Nat.lt_succ_of_le hseq
    simp [covers, hopen, hlt]

/-! ## The rewrites -/

variable {tenure : TenureRecord} {m : ChainMember}

theorem view_span (hby : TenureBy n tenure) (hview : viewAt tenure n = some (memberView m)) :
    (∃ span, tenure.spans.getLast? = some span ∧ span.role = m.role ∧ span.scope = m.scope) ∧
      activeEntries tenure.devices n = m.devices.entries := by
  rw [viewAt, spanAt_of_by hby (le_refl n)] at hview
  obtain ⟨span, hspan, heq⟩ := Option.map_eq_some_iff.mp hview
  simp only [memberView, TenureView.mk.injEq] at heq
  exact ⟨⟨span, hspan, heq.1, heq.2.1⟩, heq.2.2⟩

theorem view_mk {tenure' : TenureRecord} (hby : TenureBy (n + 1) tenure') {m' : ChainMember} {span : MemberSpan}
    (hspan : tenure'.spans.getLast? = some span) (hrole : span.role = m'.role) (hscope : span.scope = m'.scope)
    (hdevices : activeEntries tenure'.devices (n + 1) = m'.devices.entries) :
    viewAt tenure' (n + 1) = some (memberView m') := by
  rw [viewAt, spanAt_of_by hby (le_refl _), hspan, Option.map_some, hdevices, hrole, hscope]
  rfl

theorem rewritten_span (hby : TenureBy n tenure) (hopen : tenure.endSeq = none)
    (hview : viewAt tenure n = some (memberView m)) (role : Role) (scope : MemberScope) :
    Rewritten n tenure { tenure with spans := tenure.spans ++ [{ fromSeq := n + 1, role, scope }] }
      { m with role := role, scope := scope } := by
  have hby' := tenureBy_mono (Nat.le_succ n) hby
  have hbounded : TenureBy (n + 1) { tenure with spans := tenure.spans ++ [{ fromSeq := n + 1, role, scope }] } := by
    refine ⟨hby'.start, hby'.ended, fun span hs => ?_, hby'.devices⟩
    rcases List.mem_append.mp hs with hs | hs
    · exact hby'.spans span hs
    · rw [List.mem_singleton.mp hs]
  refine ⟨hbounded, hopen, rfl, ?_, fun seq hseq => ?_⟩
  · refine view_mk hbounded List.getLast?_concat rfl rfl ?_
    rw [activeEntries_of_by hby.devices (Nat.le_succ n)]
    exact (view_span hby hview).2
  · have hspan := currentAt_snoc_of_lt (·.fromSeq) tenure.spans (a := { fromSeq := n + 1, role, scope })
      (Nat.lt_succ_of_le hseq)
    rw [viewAt, viewAt, spanAt, hspan]
    rfl

theorem rewritten_added (hby : TenureBy n tenure) (hopen : tenure.endSeq = none)
    (hview : viewAt tenure n = some (memberView m)) {device : ChainDevice} (hseq : device.addedSeq = n + 1)
    (hfresh : m.devices.get? device.keyFingerprintHex = none) :
    Rewritten n tenure
      { tenure with devices := tenure.devices ++ [{ device, revokedSeq := none, capChanges := [] }] }
      { m with devices := m.devices.set device.keyFingerprintHex device } := by
  have hby' := tenureBy_mono (Nat.le_succ n) hby
  obtain ⟨⟨span, hspan, hrole, hscope⟩, hdevices⟩ := view_span hby hview
  have hnew : RecordBy (n + 1) { device, revokedSeq := none, capChanges := [] } :=
    ⟨hseq.le, fun _ h => (nomatch h), fun _ h => (nomatch h)⟩
  have hbounded : TenureBy (n + 1)
      { tenure with devices := tenure.devices ++ [{ device, revokedSeq := none, capChanges := [] }] } := by
    refine ⟨hby'.start, hby'.ended, hby'.spans, fun record hr => ?_⟩
    rcases List.mem_append.mp hr with hr | hr
    · exact hby'.devices record hr
    · rw [List.mem_singleton.mp hr]; exact hnew
  refine ⟨hbounded, hopen, rfl, ?_, fun seq hle => ?_⟩
  · refine view_mk hbounded hspan hrole hscope ?_
    rw [OrderedMap.entries_set_of_get?_none _ hfresh, ← hdevices,
      ← activeEntries_of_by hby.devices (Nat.le_succ n), activeEntries, List.filter_append, List.map_append,
      List.filter_cons_of_pos (by rw [deviceActiveAt_of_by hnew (le_refl _)]; rfl)]
    rfl
  · have hahead : deviceActiveAt { device, revokedSeq := none, capChanges := [] } seq = false := by
      simp only [deviceActiveAt, hseq, Option.all_none, Bool.and_true, decide_eq_false_iff_not]
      omega
    rw [viewAt, viewAt, activeEntries, List.filter_append, List.filter_cons_of_neg (by simp [hahead]),
      List.filter_nil, List.append_nil]
    rfl

theorem rewritten_devices (hby : TenureBy n tenure) (hopen : tenure.endSeq = none) {spans : List MemberSpan}
    {m' : ChainMember} (f : DeviceRecord → DeviceRecord) (hspansBy : ∀ span ∈ spans, span.fromSeq ≤ n + 1)
    (hspans : ∀ seq ≤ n, currentAt (·.fromSeq) spans seq = spanAt tenure seq)
    (hspan : ∃ span, spans.getLast? = some span ∧ span.role = m'.role ∧ span.scope = m'.scope)
    (hf : ∀ record, RecordBy n record → RecordBy (n + 1) (f record) ∧
      (f record).device.keyFingerprintHex = record.device.keyFingerprintHex ∧
      ∀ seq ≤ n, deviceActiveAt (f record) seq = deviceActiveAt record seq ∧
        deviceAt (f record) seq = deviceAt record seq)
    (hdevices : activeEntries (tenure.devices.map f) (n + 1) = m'.devices.entries) :
    Rewritten n tenure { tenure with spans := spans, devices := tenure.devices.map f } m' := by
  have hby' := tenureBy_mono (Nat.le_succ n) hby
  have hbounded : TenureBy (n + 1) { tenure with spans := spans, devices := tenure.devices.map f } := by
    refine ⟨hby'.start, hby'.ended, hspansBy, fun record hr => ?_⟩
    obtain ⟨old, hold, rfl⟩ := List.mem_map.mp hr
    exact (hf old (hby.devices old hold)).1
  obtain ⟨span, hlast, hrole, hscope⟩ := hspan
  refine ⟨hbounded, hopen, rfl, view_mk hbounded hlast hrole hscope hdevices, fun seq hseq => ?_⟩
  have hentries : activeEntries (tenure.devices.map f) seq = activeEntries tenure.devices seq := by
    unfold activeEntries
    rw [List.filter_map, List.map_map]
    have hfilter : tenure.devices.filter ((fun record => deviceActiveAt record seq) ∘ f) =
        tenure.devices.filter fun record => deviceActiveAt record seq :=
      List.filter_congr fun record hr => ((hf record (hby.devices record hr)).2.2 seq hseq).1
    rw [hfilter]
    refine List.map_congr_left fun record hr => ?_
    obtain ⟨-, hfp, hpast⟩ := hf record (hby.devices record (List.mem_of_mem_filter hr))
    simp only [Function.comp_apply, hfp, (hpast seq hseq).2]
  rw [viewAt, viewAt, hentries, spanAt, hspans seq hseq]

theorem revokeRecord_past {record : DeviceRecord} (h : RecordBy n record) (fps : List KeyFingerprintHex) :
    RecordBy (n + 1) (revokeRecord (n + 1) fps record) ∧
      (revokeRecord (n + 1) fps record).device.keyFingerprintHex = record.device.keyFingerprintHex ∧
      ∀ seq ≤ n, deviceActiveAt (revokeRecord (n + 1) fps record) seq = deviceActiveAt record seq ∧
        deviceAt (revokeRecord (n + 1) fps record) seq = deviceAt record seq := by
  have h' := recordBy_mono (Nat.le_succ n) h
  unfold revokeRecord
  split_ifs with hrevoke
  · refine ⟨⟨h'.added, fun seq hs => by cases hs; exact le_refl _, h'.changes⟩, rfl, fun seq hseq => ⟨?_, rfl⟩⟩
    have hlt : seq < n + 1 := Nat.lt_succ_of_le hseq
    rw [Bool.and_eq_true, Option.isNone_iff_eq_none] at hrevoke
    simp [deviceActiveAt, hrevoke.1, hlt]
  · exact ⟨h', rfl, fun seq _ => ⟨rfl, rfl⟩⟩

theorem rewritten_revoked (hby : TenureBy n tenure) (hopen : tenure.endSeq = none)
    (hview : viewAt tenure n = some (memberView m)) (fps : List KeyFingerprintHex) :
    Rewritten n tenure { tenure with devices := tenure.devices.map (revokeRecord (n + 1) fps) }
      { m with devices := m.devices.without fps } := by
  have hby' := tenureBy_mono (Nat.le_succ n) hby
  obtain ⟨hspan, hdevices⟩ := view_span hby hview
  refine rewritten_devices hby hopen _ hby'.spans (fun _ _ => rfl) hspan (fun record h => revokeRecord_past h fps) ?_
  have hactive : ∀ record ∈ tenure.devices, deviceActiveAt (revokeRecord (n + 1) fps record) (n + 1) =
      (deviceActiveAt record n && decide (record.device.keyFingerprintHex ∉ fps)) := by
    intro record hr
    rw [deviceActiveAt_of_by (revokeRecord_past (hby.devices record hr) fps).1 (le_refl _),
      deviceActiveAt_of_by (hby.devices record hr) (le_refl n)]
    unfold revokeRecord
    cases hnone : record.revokedSeq.isNone <;> by_cases hfp : record.device.keyFingerprintHex ∈ fps <;>
      simp [hnone, hfp]
  have hsame : ∀ record ∈ tenure.devices, ((revokeRecord (n + 1) fps record).device.keyFingerprintHex,
      deviceAt (revokeRecord (n + 1) fps record) (n + 1)) =
      (record.device.keyFingerprintHex, deviceAt record n) := by
    intro record hr
    rw [← deviceAt_of_by (hby.devices record hr) (Nat.le_succ n)]
    unfold revokeRecord
    split_ifs <;> rfl
  show _ = (m.devices.without fps).entries
  rw [OrderedMap.entries_without, ← hdevices]
  unfold activeEntries
  rw [List.filter_map, List.map_map, List.filter_map, List.filter_filter]
  refine (congrArg _ (List.filter_congr fun record hr => ?_)).trans
    (List.map_congr_left fun record hr => hsame record (List.mem_of_mem_filter hr))
  simp [hactive record hr, Bool.and_comm]

theorem deviceAt_eq (record : DeviceRecord) (seq : Nat) :
    deviceAt record seq = { record.device with scope := (deviceAt record seq).scope } := by
  unfold deviceAt
  cases currentAt (·.fromSeq) record.capChanges seq <;> rfl

theorem pruneRecord_past (e : EnvironmentId) {record : DeviceRecord} (h : RecordBy n record) :
    RecordBy (n + 1) (pruneRecord e (n + 1) record) ∧
      (pruneRecord e (n + 1) record).device.keyFingerprintHex = record.device.keyFingerprintHex ∧
      ∀ seq ≤ n, deviceActiveAt (pruneRecord e (n + 1) record) seq = deviceActiveAt record seq ∧
        deviceAt (pruneRecord e (n + 1) record) seq = deviceAt record seq := by
  have h' := recordBy_mono (Nat.le_succ n) h
  unfold pruneRecord
  dsimp only
  split_ifs
  · refine ⟨⟨h'.added, h'.revoked, fun change hc => ?_⟩, rfl, fun seq hseq => ⟨rfl, ?_⟩⟩
    · rcases List.mem_append.mp hc with hc | hc
      · exact h'.changes change hc
      · rw [List.mem_singleton.mp hc]
    · have hcurrent := currentAt_snoc_of_lt (·.fromSeq) record.capChanges
        (a := { fromSeq := n + 1, scope := scopeWithout (deviceAt record (n + 1)).scope e })
        (Nat.lt_succ_of_le hseq)
      rw [deviceAt, hcurrent]
      rfl
  · exact ⟨h', rfl, fun seq _ => ⟨rfl, rfl⟩⟩

theorem deviceAt_pruneRecord (e : EnvironmentId) {record : DeviceRecord} (h : RecordBy n record)
    (hactive : record.revokedSeq = none) :
    deviceAt (pruneRecord e (n + 1) record) (n + 1) =
      { deviceAt record n with scope := scopeWithout (deviceAt record n).scope e } := by
  have hsame := deviceAt_of_by h (Nat.le_succ n)
  unfold pruneRecord
  dsimp only
  rw [hactive, Option.isNone_none, Bool.true_and]
  split_ifs with hlists
  · have hcurrent := currentAt_snoc_of_le (·.fromSeq) record.capChanges
      (a := { fromSeq := n + 1, scope := scopeWithout (deviceAt record (n + 1)).scope e })
      (fun change hc => (h.changes change hc).trans (Nat.le_succ n)) (le_refl _)
    rw [deviceAt, hcurrent, ← hsame, deviceAt_eq record (n + 1)]
  · rw [hsame] at hlists
    rw [hsame, show scopeWithout (deviceAt record n).scope e = (deviceAt record n).scope by simpa using hlists]

theorem pruneSpans_past (e : EnvironmentId) (spans : List MemberSpan) {seq : Nat} (hseq : seq ≤ n) :
    currentAt (·.fromSeq) (pruneSpans e (n + 1) spans) seq = currentAt (·.fromSeq) spans seq := by
  unfold pruneSpans
  split
  · rfl
  · dsimp only
    split_ifs
    · exact currentAt_snoc_of_lt _ _ (Nat.lt_succ_of_le hseq)
    · rfl

theorem getLast?_pruneSpans (e : EnvironmentId) {spans : List MemberSpan} {span : MemberSpan}
    (h : spans.getLast? = some span) :
    ∃ span', (pruneSpans e (n + 1) spans).getLast? = some span' ∧ span'.role = span.role ∧
      span'.scope = scopeWithout span.scope e := by
  rw [pruneSpans, h]
  dsimp only
  split_ifs with hlists
  · exact ⟨_, List.getLast?_concat, rfl, rfl⟩
  · exact ⟨span, h, rfl, (not_not.mp hlists).symm⟩

theorem rewritten_pruned (hby : TenureBy n tenure) (hopen : tenure.endSeq = none)
    (hview : viewAt tenure n = some (memberView m)) (e : EnvironmentId) :
    Rewritten n tenure (pruneTenureAt e (n + 1) tenure)
      { m with
        scope := scopeWithout m.scope e
        devices := m.devices.mapValues fun device => { device with scope := scopeWithout device.scope e } } := by
  have hby' := tenureBy_mono (Nat.le_succ n) hby
  obtain ⟨⟨span, hspan, hrole, hscope⟩, hdevices⟩ := view_span hby hview
  refine rewritten_devices hby hopen _ ?_ (fun seq hseq => pruneSpans_past e _ hseq) ?_
    (fun record h => pruneRecord_past e h) ?_
  · intro x hx
    unfold pruneSpans at hx
    split at hx
    · exact hby'.spans x hx
    · dsimp only at hx
      split_ifs at hx
      · rcases List.mem_append.mp hx with hx | hx
        · exact hby'.spans x hx
        · rw [List.mem_singleton.mp hx]
      · exact hby'.spans x hx
  · obtain ⟨span', hlast, hrole', hscope'⟩ := getLast?_pruneSpans (n := n) e hspan
    exact ⟨span', hlast, hrole'.trans hrole, hscope'.trans (by rw [hscope])⟩
  · have hactive : ∀ record ∈ tenure.devices, deviceActiveAt (pruneRecord e (n + 1) record) (n + 1) =
        deviceActiveAt record n := by
      intro record hr
      rw [deviceActiveAt_of_by (pruneRecord_past e (hby.devices record hr)).1 (le_refl _),
        deviceActiveAt_of_by (hby.devices record hr) (le_refl n)]
      unfold pruneRecord
      dsimp only
      split_ifs <;> rfl
    show _ = m.devices.entries.map fun x => (x.1, { x.2 with scope := scopeWithout x.2.scope e })
    rw [← hdevices]
    unfold activeEntries
    rw [List.filter_map, List.map_map, List.map_map,
      List.filter_congr (q := fun record => deviceActiveAt record n)
        fun record hr => by rw [Function.comp_apply, hactive record hr]]
    refine List.map_congr_left fun record hr => ?_
    obtain ⟨hmem, hact⟩ := List.mem_filter.mp hr
    have hby₀ := hby.devices record hmem
    rw [deviceActiveAt_of_by hby₀ (le_refl n), Option.isNone_iff_eq_none] at hact
    simp only [Function.comp_apply, (pruneRecord_past e hby₀).2.1, deviceAt_pruneRecord e hby₀ hact]

end Recorders

end Maruhi.Chain
