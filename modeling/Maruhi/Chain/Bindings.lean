import Maruhi.Chain.Agreement
import Maruhi.Chain.Commitment

/-!
# What the index of an accepted list is made of

Every device it has a record of was registered by an entry, and its hashes are those of the entries.
-/

open Text

namespace Maruhi.Chain

/-! ## Devices -/

/-- A device of a registered key pair, under the pair's fingerprint. -/
def BoundDevice (crypto : Crypto) (K : List (JsString × JsString)) (device : ChainDevice) : Prop :=
  (device.encPubHex, device.sigPubHex) ∈ K ∧
    device.keyFingerprintHex = userFingerprintHex crypto device.encPubHex device.sigPubHex

def BoundTenure (crypto : Crypto) (K : List (JsString × JsString)) (tenure : TenureRecord) : Prop :=
  ∀ record ∈ tenure.devices, BoundDevice crypto K record.device

def Bound (crypto : Crypto) (K : List (JsString × JsString)) (history : ChainHistoryBuilder) : Prop :=
  ∀ u tenures, history.tenures.get? u = some tenures → ∀ tenure ∈ tenures, BoundTenure crypto K tenure

section Recording
variable {crypto : Crypto} {K : List (JsString × JsString)} {history : ChainHistoryBuilder}

theorem bound_updateOpenTenure {f : TenureRecord → TenureRecord}
    (hf : ∀ tenure, BoundTenure crypto K tenure → BoundTenure crypto K (f tenure)) {tenures : List TenureRecord}
    (h : ∀ tenure ∈ tenures, BoundTenure crypto K tenure) :
    ∀ tenure ∈ updateOpenTenure f tenures, BoundTenure crypto K tenure := by
  unfold updateOpenTenure
  split
  · exact h
  · rename_i last hlast
    split
    · intro tenure hm
      rcases List.mem_append.mp hm with hm | hm
      · exact h tenure ((List.dropLast_sublist _).subset hm)
      · rw [List.mem_singleton.mp hm]
        exact hf last (h last (List.mem_of_getLast? hlast))
    · exact h

theorem bound_withOpenTenure {f : TenureRecord → TenureRecord}
    (hf : ∀ tenure, BoundTenure crypto K tenure → BoundTenure crypto K (f tenure)) (h : Bound crypto K history)
    (u : UserId) : Bound crypto K (history.withOpenTenure u f) := by
  unfold ChainHistoryBuilder.withOpenTenure
  split
  · exact h
  · rename_i tenures htenures
    intro v tenures' hv
    rw [OrderedMap.get?_set] at hv
    split at hv
    · cases hv
      exact bound_updateOpenTenure hf (h u tenures htenures)
    · exact h v tenures' hv

theorem bound_tenureStart (h : Bound crypto K history) {s : MutableChainState}
    (hs : ∀ u m fp d, s.members.get? u = some m → m.devices.get? fp = some d → BoundDevice crypto K d) (u : UserId)
    (seq : Nat) : Bound crypto K (recordTenureStartOf history s u seq) := by
  unfold recordTenureStartOf
  split
  · exact h
  · rename_i member hmember
    split
    · exact h
    · rename_i device hdevice
      have hbound : BoundDevice crypto K device := by
        unfold soleDeviceOf at hdevice
        split at hdevice
        · cases hdevice
        · obtain ⟨fp, hfp⟩ := (OrderedMap.mem_values _ _).mp (List.mem_of_head? hdevice)
          exact hs u member fp device hmember hfp
      intro v tenures hv
      change (history.tenures.set u _).get? v = some tenures at hv
      rw [OrderedMap.get?_set] at hv
      split at hv
      · cases hv
        intro tenure hm
        rcases List.mem_append.mp hm with hm | hm
        · cases hold : history.tenures.get? u with
          | none => rw [hold] at hm; cases hm
          | some old => rw [hold] at hm; exact h u old hold tenure hm
        · rw [List.mem_singleton.mp hm]
          intro record hrecord
          rw [List.mem_singleton.mp hrecord]
          exact hbound
      · exact h v tenures hv

theorem bound_deviceAdded (h : Bound crypto K history) {s : MutableChainState}
    (hs : ∀ u m fp d, s.members.get? u = some m → m.devices.get? fp = some d → BoundDevice crypto K d) (u : UserId)
    (enc : JsString) : Bound crypto K (recordDeviceAddedOf history s u enc) := by
  unfold recordDeviceAddedOf
  split
  · exact h
  · rename_i device hdevice
    obtain ⟨member, hmember, hfound⟩ := Option.bind_eq_some_iff.mp hdevice
    obtain ⟨fp, hfp⟩ := (OrderedMap.mem_values _ _).mp (List.mem_of_find?_eq_some hfound)
    refine bound_withOpenTenure (fun tenure ht record hm => ?_) h u
    rcases List.mem_append.mp hm with hm | hm
    · exact ht record hm
    · rw [List.mem_singleton.mp hm]
      exact hs u member fp device hmember hfp

theorem bound_mapRecords {g : DeviceRecord → DeviceRecord} (hg : ∀ record, (g record).device = record.device)
    {tenure : TenureRecord} (h : BoundTenure crypto K tenure) {spans : List MemberSpan} :
    BoundTenure crypto K { tenure with devices := tenure.devices.map g, spans := spans } := by
  intro record hm
  obtain ⟨old, hold, rfl⟩ := List.mem_map.mp hm
  rw [hg]
  exact h old hold

theorem bound_recordHistory (h : Bound crypto K history) (applied : AppliedOperation) (seq : Nat) {s : MutableChainState}
    (hs : ∀ u m fp d, s.members.get? u = some m → m.devices.get? fp = some d → BoundDevice crypto K d) :
    Bound crypto K (recordHistory history applied seq s) := by
  obtain ⟨operation, actor⟩ := applied
  cases operation with
  | genesis p => exact bound_tenureStart h hs actor seq
  | addMember p => exact bound_tenureStart h hs p.targetUserId seq
  | addDevice p => exact bound_deviceAdded h hs actor p.encPubHex
  | changeRole p =>
    refine bound_withOpenTenure (f := fun tenure => { tenure with spans := tenure.spans ++ _ }) ?_ h p.targetUserId
    exact fun _ ht => ht
  | removeMember p =>
    refine bound_withOpenTenure (f := fun tenure => { tenure with endSeq := some seq }) ?_ h p.targetUserId
    exact fun _ ht => ht
  | revokeDevice p =>
    refine bound_withOpenTenure (fun tenure ht => bound_mapRecords (fun record => ?_) ht) h _
    unfold revokeRecord
    split <;> rfl
  | deleteEnvironment p =>
    intro u tenures hu
    change (history.tenures.mapValues _).get? u = some tenures at hu
    rw [OrderedMap.get?_mapValues] at hu
    obtain ⟨old, hold, rfl⟩ := Option.map_eq_some_iff.mp hu
    refine bound_updateOpenTenure (fun tenure ht => bound_mapRecords (fun record => ?_) ht) (h u old hold)
    unfold pruneRecord
    dsimp only
    split <;> rfl
  | rotateEpoch p =>
    change Bound crypto K (history.recordEpochRotated p.environmentId p.newEpoch seq)
    unfold ChainHistoryBuilder.recordEpochRotated
    split <;> exact h
  | checkpoint p =>
    change Bound crypto K (p.environments.foldl (fun history tuple => history.recordTuple seq tuple) history)
    induction p.environments generalizing history with
    | nil => exact h
    | cons tuple rest ih => exact ih (show Bound crypto K (history.recordTuple seq tuple) from h)
  | _ => exact h

end Recording

theorem runs_bound {crypto : Crypto} {entries : List Json} {loop : LoopState}
    (hrun : Runs crypto (some .new) entries loop) (hdistinct : FingerprintsDistinct crypto entries) :
    ∃ history, loop.history = some history ∧ Bound crypto (registeredKeys entries) history := by
  refine Run.reaches_induction hrun (P := fun _ loop => ∃ history, loop.history = some history ∧
    Bound crypto (registeredKeys entries) history) ⟨.new, rfl, fun _ _ h => (nomatch h)⟩ ?_
  rintro pre j loop loop' hpre hreach ⟨history, hhistory, hbound⟩ hstep
  obtain ⟨entry, hash, applied, hacc⟩ := verifyEntry_ok hstep
  have hrun' : Runs crypto (some .new) (pre ++ [j]) loop' := (Run.reaches_snoc _ _ _ _).mpr ⟨loop, hreach, hstep⟩
  have hkeyed := (runs_sound hrun').keyed
  have hkeys := runs_keysUnique hrun' hpre hdistinct
  refine ⟨(historyAfter history applied (loop.seq + 1) loop'.state).recordEntryHash hash, ?_, ?_⟩
  · rw [hacc.history_eq, hhistory]
    rfl
  · cases applied with
    | none => exact hbound
    | some applied =>
      refine bound_recordHistory hbound applied (loop.seq + 1) fun u m fp d hm hd => ?_
      obtain ⟨hfp, huser⟩ := hkeyed.device u m fp d hm hd
      exact ⟨hkeys.registered (u, fp) d (by rw [currentDevice, hm]; exact hd), hfp.trans huser.symm⟩

/-! ## Hashes -/

/-- The hash of an entry as it is read. -/
def hashOf (crypto : Crypto) (j : Json) : Option JsString := (checkPayloadShape j).bind (computeChainEntryHash crypto)

theorem hashOf_accepted {crypto : Crypto} {loop loop' : LoopState} {j : Json} {entry : ChainEntry} {hash : JsString}
    {applied : Option AppliedOperation} (h : AcceptedStep crypto loop j loop' entry hash applied) :
    hashOf crypto j = some hash := by
  unfold hashOf
  rw [h.shape]
  exact h.hash_eq

theorem runs_hashes {crypto : Crypto} {entries : List Json} {loop : LoopState}
    (hrun : Runs crypto (some .new) entries loop) :
    ∃ history, loop.history = some history ∧ entries.mapM (hashOf crypto) = some history.entryHashes := by
  refine Run.reaches_induction hrun (P := fun pre loop => ∃ history, loop.history = some history ∧
    pre.mapM (hashOf crypto) = some history.entryHashes) ⟨.new, rfl, rfl⟩ ?_
  rintro pre j loop loop' hpre hreach ⟨history, hhistory, hhashes⟩ hstep
  obtain ⟨entry, hash, applied, hacc⟩ := verifyEntry_ok hstep
  refine ⟨(historyAfter history applied (loop.seq + 1) loop'.state).recordEntryHash hash, ?_, ?_⟩
  · rw [hacc.history_eq, hhistory]
    rfl
  · rw [ChainHistoryBuilder.recordEntryHash, entryHashes_historyAfter, List.mapM_append, hhashes]
    simp [hashOf_accepted hacc]

theorem runs_lastHash {crypto : Crypto} {history : Option ChainHistoryBuilder} {pre : List Json} {j : Json}
    {loop : LoopState} (hrun : Runs crypto history (pre ++ [j]) loop) : hashOf crypto j = some loop.prevHash := by
  obtain ⟨mid, -, hstep⟩ := (Run.reaches_snoc _ _ _ _).mp hrun
  obtain ⟨entry, hash, applied, hacc⟩ := verifyEntry_ok hstep
  rw [hacc.prevHash_eq]
  exact hashOf_accepted hacc

theorem EncodedAlike.hashOf_eq (crypto : Crypto) {j j' : Json} {e e' : ChainEntry} (h : EncodedAlike j j' e e') :
    hashOf crypto j = hashOf crypto j' := by
  unfold hashOf computeChainEntryHash
  rw [h.left, h.right, Option.bind_some, Option.bind_some, h.bytes]

/-! ## The index of an accepted list -/

structure Indexes (crypto : Crypto) (entries : List Json) (st : ChainState) (index : ChainHistoryIndex) : Prop where
  hashes : entries.mapM (hashOf crypto) = some index.entryHashes
  length : index.entryHashes.length = entries.length
  seq : st.headSeq = entries.length
  safe : entries.length ≤ Json.maxSafeInteger
  runs : ∃ loop, Runs crypto none entries loop ∧ st.headHashHex = loop.prevHash
  ne : entries ≠ []

theorem verified_indexes {crypto : Crypto} {entries : List Json} {st : ChainState} {index : ChainHistoryIndex}
    (h : verifyChainWithHistory crypto entries = .ok (st, index)) : Indexes crypto entries st index := by
  obtain ⟨⟨st', history'⟩, hcore, hresult⟩ := Run.bind_ok h
  cases hresult
  have hne : entries ≠ [] := by
    rintro rfl
    cases hcore
  unfold verifyChainCore at hcore
  rw [if_neg (by simpa using hne)] at hcore
  obtain ⟨loop, hrun, hloop⟩ := Run.bind_ok hcore
  cases hloop
  obtain ⟨history, hhistory, hhashes⟩ := runs_hashes hrun
  rw [hhistory]
  have hlength : history.entryHashes.length = entries.length := (Framing.mapM_eq_some.mp hhashes).length_eq.symm
  refine ⟨hhashes, hlength, rfl, ?_, ⟨_, runs_forget hrun, rfl⟩, hne⟩
  have hlast : entries.length - 1 < entries.length := Nat.sub_lt (List.length_pos_of_ne_nil hne) Nat.one_pos
  obtain ⟨s, entry, hash, applied, hat⟩ := entryAt_of_stateAfter hlast (by
    rw [Nat.sub_add_cancel (List.length_pos_of_ne_nil hne), List.take_length]
    exact stateAfter_of_runs hrun)
  have hsafe := hat.seq_le
  omega

theorem verified_bound {crypto : Crypto} {entries : List Json} {st : ChainState} {index : ChainHistoryIndex}
    (h : verifyChainWithHistory crypto entries = .ok (st, index)) (hdistinct : FingerprintsDistinct crypto entries) :
    ∃ history, index = history.build ∧ Bound crypto (registeredKeys entries) history := by
  obtain ⟨⟨st', history'⟩, hcore, hresult⟩ := Run.bind_ok h
  cases hresult
  unfold verifyChainCore at hcore
  split at hcore
  · cases hcore
  · obtain ⟨loop, hrun, hloop⟩ := Run.bind_ok hcore
    cases hloop
    obtain ⟨history, hhistory, hbound⟩ := runs_bound hrun hdistinct
    rw [hhistory]
    exact ⟨history, rfl, hbound⟩

theorem verified_run {crypto : Crypto} {entries : List Json} {st : ChainState} {index : ChainHistoryIndex}
    (h : verifyChainWithHistory crypto entries = .ok (st, index)) : ∃ loop, Runs crypto (some .new) entries loop ∧
      st = sealChainState loop.state entries.length loop.prevHash ∧ index = (loop.history.getD .new).build := by
  obtain ⟨⟨st', history'⟩, hcore, hresult⟩ := Run.bind_ok h
  cases hresult
  unfold verifyChainCore at hcore
  split at hcore
  · cases hcore
  · obtain ⟨loop, hrun, hloop⟩ := Run.bind_ok hcore
    cases hloop
    exact ⟨loop, hrun, rfl, rfl⟩

theorem sigKey_of_record {crypto : Crypto} {entries : List Json} {history : ChainHistoryBuilder}
    (hbound : Bound crypto (registeredKeys entries) history) (hdistinct : FingerprintsDistinct crypto entries) {u : UserId}
    {tenure : TenureRecord} (htenure : tenure ∈ tenuresOf history u) {record : DeviceRecord}
    (hrecord : record ∈ tenure.devices) :
    history.build.sigKeyByFingerprint u record.device.keyFingerprintHex = some record.device.sigPubHex := by
  unfold ChainHistoryIndex.sigKeyByFingerprint
  change (tenuresOf history u).findSome? _ = _
  unfold tenuresOf at htenure ⊢
  cases htenures : history.tenures.get? u with
  | none => rw [htenures] at htenure; cases htenure
  | some tenures =>
    rw [htenures, Option.getD_some] at htenure
    rw [Option.getD_some]
    have hown := hbound u tenures htenures tenure htenure record hrecord
    have hsome : (tenures.findSome? fun tenure => (tenure.devices.find? fun candidate =>
        candidate.device.keyFingerprintHex = record.device.keyFingerprintHex).map (·.device.sigPubHex)).isSome = true := by
      rw [List.findSome?_isSome_iff]
      refine ⟨tenure, htenure, ?_⟩
      rw [Option.isSome_map, List.find?_isSome]
      exact ⟨record, hrecord, decide_eq_true rfl⟩
    obtain ⟨key, hkey⟩ := Option.isSome_iff_exists.mp hsome
    rw [hkey]
    obtain ⟨tenure', htenure', hfound⟩ := List.exists_of_findSome?_eq_some hkey
    obtain ⟨record', hrecord', rfl⟩ := Option.map_eq_some_iff.mp hfound
    have hsame : record'.device.keyFingerprintHex = record.device.keyFingerprintHex := by
      simpa using List.find?_some hrecord'
    have hother := hbound u tenures htenures tenure' htenure' record' (List.mem_of_find?_eq_some hrecord')
    have hpair := hdistinct _ hother.1 _ hown.1 (hother.2.symm.trans (hsame.trans hown.2))
    exact congrArg some (congrArg Prod.snd hpair)

theorem deviceAt_sigPubHex (record : DeviceRecord) (seq : Nat) :
    (deviceAt record seq).sigPubHex = record.device.sigPubHex := by
  unfold deviceAt
  split <;> rfl

theorem sigKey_of_current {crypto : Crypto} {entries : List Json} {st : ChainState} {index : ChainHistoryIndex}
    (h : verifyChainWithHistory crypto entries = .ok (st, index)) (hdistinct : FingerprintsDistinct crypto entries)
    {u : UserId} {member : ChainMember} (hmember : st.members.get? u = some member) {fp : KeyFingerprintHex}
    {device : ChainDevice} (hdevice : member.devices.get? fp = some device) :
    index.sigKeyByFingerprint u fp = some device.sigPubHex := by
  obtain ⟨loop, hrun, rfl, rfl⟩ := verified_run h
  obtain ⟨history, hhistory, -, hagrees, -⟩ := runs_shows hrun hdistinct
  obtain ⟨history', hhistory', hbound⟩ := runs_bound hrun hdistinct
  obtain rfl := Option.some.inj (hhistory.symm.trans hhistory')
  rw [hhistory, Option.getD_some]
  obtain ⟨init, tenure, htenures, -, -, hview⟩ := (hagrees.tenures u).present member hmember
  obtain ⟨span, -, hview⟩ := Option.map_eq_some_iff.mp hview
  have hentries : activeEntries tenure.devices loop.seq = member.devices.entries := congrArg TenureView.devices hview
  have hentry := (OrderedMap.mem_entries _ _ _).mpr hdevice
  rw [← hentries] at hentry
  obtain ⟨record, hrecord, heq⟩ := List.mem_map.mp hentry
  cases heq
  have htenure : tenure ∈ tenuresOf history u := htenures ▸ List.mem_append_right init (List.mem_singleton_self tenure)
  rw [deviceAt_sigPubHex]
  exact sigKey_of_record hbound hdistinct htenure (List.mem_filter.mp hrecord).1

namespace Indexes
variable {crypto : Crypto} {entries : List Json} {st : ChainState} {index : ChainHistoryIndex}

theorem entryHashAt_eq (h : Indexes crypto entries st index) {q : Nat} (h1 : 1 ≤ q) (hq : q ≤ entries.length) :
    index.entryHashAt q = (entries[q - 1]?).bind (hashOf crypto) := by
  have hrange : index.inRange q = true := by
    have hsafe := h.safe
    have hlength := h.length
    simp only [ChainHistoryIndex.inRange, Bool.and_eq_true, decide_eq_true_eq]
    exact ⟨⟨by omega, h1⟩, hq.trans_eq hlength.symm⟩
  have hlt : q - 1 < entries.length := by omega
  have hlt' : q - 1 < index.entryHashes.length := by rw [h.length]; exact hlt
  unfold ChainHistoryIndex.entryHashAt
  rw [if_pos hrange, List.getElem?_eq_getElem hlt, List.getElem?_eq_getElem hlt', Option.bind_some]
  exact ((List.forall₂_iff_get.mp (Framing.mapM_eq_some.mp h.hashes)).2 (q - 1) hlt hlt').symm

theorem le_of_entryHashAt (h : Indexes crypto entries st index) {q : Nat} {hash : JsString}
    (hq : index.entryHashAt q = some hash) : 1 ≤ q ∧ q ≤ entries.length := by
  unfold ChainHistoryIndex.entryHashAt at hq
  split at hq
  · rename_i hrange
    have hlength := h.length
    simp only [ChainHistoryIndex.inRange, Bool.and_eq_true, decide_eq_true_eq] at hrange
    exact ⟨hrange.1.2, hrange.2.trans_eq hlength⟩
  · cases hq

theorem entryHashAt_of_head {entries' : List Json} {st' : ChainState} {index' : ChainHistoryIndex}
    (h : Indexes crypto entries st index) (h' : Indexes crypto entries' st' index')
    (hdistinct : HashesDistinct crypto entries entries') (hlength : entries.length ≤ entries'.length)
    (hhead : index'.entryHashAt st.headSeq = some st.headHashHex) {q : Nat} (hq : q ≤ st.headSeq) :
    index'.entryHashAt q = index.entryHashAt q := by
  obtain ⟨loop, hrun, hst⟩ := h.runs
  obtain ⟨loop', hrun', -⟩ := h'.runs
  obtain ⟨mid, hmid, -⟩ := Run.reaches_take hrun' entries.length
  have hpos := List.length_pos_of_ne_nil h.ne
  have htake : (entries'.take entries.length).length = entries.length := by
    rw [List.length_take]
    omega
  have hlt : entries.length - 1 < (entries'.take entries.length).length := by omega
  have hlast : hashOf crypto (entries'.take entries.length)[entries.length - 1] = some mid.prevHash := by
    have hsplit := List.dropLast_append_getLast (l := entries'.take entries.length) fun hnil => by
      rw [hnil, List.length_nil] at htake
      omega
    rw [← hsplit] at hmid
    have hhash := runs_lastHash hmid
    rw [List.getLast_eq_getElem] at hhash
    simpa [htake] using hhash
  have hprev : loop.prevHash = mid.prevHash := by
    rw [h.seq, h'.entryHashAt_eq hpos hlength, List.getElem?_eq_getElem (by omega), Option.bind_some, hst] at hhead
    rw [List.getElem_take] at hlast
    exact Option.some.inj (hhead.symm.trans hlast)
  have hread : ∀ e' ∈ readEntries (entries'.take entries.length), e' ∈ readEntries entries' := fun e' he' => by
    obtain ⟨j, hj, hread⟩ := List.mem_filterMap.mp he'
    exact List.mem_filterMap.mpr ⟨j, List.mem_of_mem_take hj, hread⟩
  have halike := runs_encodedAlike hrun hmid (fun e he e' he' => hdistinct e he e' (hread e' he')) htake.symm hprev
  rcases Nat.eq_zero_or_pos q with rfl | h1
  · rfl
  · have hq : q ≤ entries.length := hq.trans_eq h.seq
    have hlt : q - 1 < entries.length := by omega
    have hlt' : q - 1 < (entries'.take entries.length).length := by omega
    obtain ⟨e, e', hpair⟩ := (List.forall₂_iff_get.mp halike).2 (q - 1) hlt hlt'
    rw [h.entryHashAt_eq h1 hq, h'.entryHashAt_eq h1 (hq.trans hlength), List.getElem?_eq_getElem hlt,
      List.getElem?_eq_getElem (by omega), Option.bind_some, Option.bind_some]
    have hsame := hpair.hashOf_eq crypto
    rw [List.get_eq_getElem, List.get_eq_getElem, List.getElem_take] at hsame
    exact hsame.symm

end Indexes

end Maruhi.Chain
