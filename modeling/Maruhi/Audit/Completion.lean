import Maruhi.Audit.Verify

/-!
# When the verification of the mirror ends

The client maps a device entry without the fingerprint of the added key, and the mapping refuses it. Every other entry of
an accepted chain is mapped, so that the verification ends with a report exactly on the chains without one.
-/

open Text

namespace Maruhi.Audit
open Chain

/-! ## One entry -/

section
variable {crypto : Crypto} {entries : List Json} {n : Nat} {s s' : MutableChainState} {entry : ChainEntry}
  {hash : JsString} {applied : Option AppliedOperation} {st : ChainState} {index : ChainHistoryIndex}

theorem Mirrored.ne_nil {ts : Nat} {rows : List AuditEventRecord} (h : Mirrored crypto ts s entry applied rows) :
    rows ≠ [] := by
  cases h <;> exact List.cons_ne_nil _ _

/-- Every entry but an add_device is mapped to some rows. -/
theorem expectedRows_ok (h : verifyChainWithHistory crypto entries = .ok (st, index))
    (hdistinct : HashesDistinct crypto entries entries) (hat : EntryAt crypto entries n s entry hash s' applied)
    (hother : ∀ p, entry.operation ≠ .direct (.addDevice p)) (ts : Nat) :
    ∃ row rows, expectedRows entry ts (proposalIndexOf (readEntries entries) (st, index)) = .ok (row :: rows) := by
  obtain ⟨rows, hrows⟩ := exists_mirrored ts hat
  obtain ⟨row, rest, rfl⟩ := List.exists_cons_of_ne_nil hrows.ne_nil
  have hmapped := mirrorRows_of_mirrored h hdistinct hat hrows
  refine ⟨row, rest, ?_⟩
  have hsubject : mirrorSubjectOf crypto entry = .ok none := by
    unfold mirrorSubjectOf
    split
    · exact absurd ‹_› (hother _)
    · rfl
  unfold mirrorRows at hmapped
  rw [hsubject] at hmapped
  unfold expectedRows
  rw [show chainMirrorEvents entry ts (proposalIndexOf (readEntries entries) (st, index)) none = .ok (row :: rest) from
    hmapped]
  rfl

end

theorem expectedRows_addDevice {entry : ChainEntry} {p : AddDevicePayload}
    (h : entry.operation = .direct (.addDevice p)) (ts : Nat) (index : ProposalIndex) :
    expectedRows entry ts index = .error (.mirror .addedDeviceRequired) := by
  unfold expectedRows chainMirrorEvents
  rw [h]
  rfl

theorem mapM_ok_iff {ε α β : Type} {f : α → Except ε β} {l : List α} :
    (∃ ys, l.mapM f = .ok ys) ↔ ∀ x ∈ l, ∃ y, f x = .ok y := by
  induction l with
  | nil => exact ⟨fun _ x hx => (nomatch hx), fun _ => ⟨[], rfl⟩⟩
  | cons x rest ih =>
    rw [List.forall_mem_cons, ← ih, List.mapM_cons]
    constructor
    · rintro ⟨ys, h⟩
      cases hx : f x with
      | error e => rw [hx] at h; cases h
      | ok y =>
        rw [hx] at h
        obtain ⟨zs, hrest, -⟩ := Run.bind_ok (show (rest.mapM f >>= fun zs => pure (y :: zs)) = .ok ys from h)
        exact ⟨⟨y, rfl⟩, zs, hrest⟩
    · rintro ⟨⟨y, hx⟩, zs, hrest⟩
      rw [hx]
      exact ⟨y :: zs, by change (rest.mapM f >>= fun zs => pure (y :: zs)) = _; rw [hrest]; rfl⟩

/-! ## One entry's rows -/

theorem expectedRowProblems_ok {entry : ChainEntry} {index : ProposalIndex}
    (h : ∀ ts, ∃ row rows, expectedRows entry ts index = .ok (row :: rows)) (want : AuditEventRecord)
    (rows : List WireMirrorRow) : ∃ problems, expectedRowProblems entry want rows index = .ok problems := by
  match rows with
  | [] => exact ⟨_, rfl⟩
  | [observed] =>
    obtain ⟨row, rest, hrows⟩ := h observed.serverTs
    unfold expectedRowProblems expectedRowFor
    dsimp only
    rw [hrows]
    exact ⟨_, rfl⟩
  | _ :: _ :: _ => exact ⟨_, rfl⟩

theorem entryMirrorProblems_ok {entry : ChainEntry} {index : ProposalIndex}
    (h : ∀ ts, ∃ row rows, expectedRows entry ts index = .ok (row :: rows)) (matched : List WireMirrorRow) :
    ∃ problems, entryMirrorProblems entry matched index = .ok problems := by
  unfold entryMirrorProblems
  split_ifs
  · exact ⟨_, rfl⟩
  · obtain ⟨row, rest, hrows⟩ := h 0
    rw [hrows]
    obtain ⟨problems, hproblems⟩ := mapM_ok_iff.mpr fun (want : AuditEventRecord) (_ : want ∈ row :: rest) =>
      expectedRowProblems_ok h want (matched.filter fun observed => observed.event = eventText want.event)
    change ∃ problems, (List.mapM _ (row :: rest) >>= fun problems => _) = Except.ok problems
    rw [hproblems]
    exact ⟨_, rfl⟩

theorem entryMirrorProblems_addDevice {entry : ChainEntry} {p : AddDevicePayload}
    (h : entry.operation = .direct (.addDevice p)) (matched : List WireMirrorRow) (index : ProposalIndex) :
    entryMirrorProblems entry matched index = .error (.mirror .addedDeviceRequired) := by
  have hmissing : proposalMissingFor entry index = false := by
    unfold proposalMissingFor
    rw [h]
  unfold entryMirrorProblems
  rw [hmissing, if_neg Bool.false_ne_true, expectedRows_addDevice h]
  rfl

/-! ## The whole mirror -/

theorem entryAt_of_mem {crypto : Crypto} {entries : List Json} {st : ChainState} (h : verifyChain crypto entries = .ok st)
    {entry : ChainEntry} (hentry : entry ∈ readEntries entries) :
    ∃ n s hash s' applied, EntryAt crypto entries n s entry hash s' applied := by
  obtain ⟨j, hj, hshape⟩ := List.mem_filterMap.mp hentry
  obtain ⟨n, hn, rfl⟩ := List.getElem_of_mem hj
  obtain ⟨s, entry', hash, s', applied, hat⟩ := entryAt_of_verifyChain h hn
  obtain ⟨j', hj', hshape'⟩ := hat.read
  rw [List.getElem?_eq_getElem hn, Option.some.injEq] at hj'
  rw [← hj', hshape, Option.some.injEq] at hshape'
  rw [← hshape'] at hat
  exact ⟨n, s, hash, s', applied, hat⟩

theorem auditVerifyOp_ok_iff {entries : List ChainEntry} {applied : ChainState × ChainHistoryIndex}
    {rows : List WireMirrorRow} : (∃ report, auditVerifyOp entries applied rows = .ok report) ↔
      ∀ entry ∈ entries, ∃ problems, entryMirrorProblems entry
        (((bucketMirrorRows rows applied.1.headSeq).byChainSeq.get? entry.seq).getD [])
        (proposalIndexOf entries applied) = .ok problems := by
  rw [← mapM_ok_iff]
  constructor
  · rintro ⟨report, hreport⟩
    obtain ⟨found, hfound, -⟩ := Run.bind_ok hreport
    exact ⟨found, hfound⟩
  · rintro ⟨found, hfound⟩
    unfold auditVerifyOp
    dsimp only
    rw [hfound]
    exact ⟨_, rfl⟩

theorem no_addDevice_of_ok {entries : List ChainEntry} {applied : ChainState × ChainHistoryIndex}
    {rows : List WireMirrorRow} {report : MirrorVerification} (h : auditVerifyOp entries applied rows = .ok report) :
    ∀ entry ∈ entries, ∀ p, entry.operation ≠ .direct (.addDevice p) := by
  intro entry hentry p hop
  obtain ⟨problems, hproblems⟩ := auditVerifyOp_ok_iff.mp ⟨report, h⟩ entry hentry
  rw [entryMirrorProblems_addDevice hop] at hproblems
  cases hproblems

/-- Whatever rows it is given, the verification ends with a report exactly where the chain has no add_device. -/
theorem audit_verify_ends_iff (crypto : Crypto) (entries : List Json) (st : ChainState) (index : ChainHistoryIndex)
    (rows : List WireMirrorRow) (h : verifyChainWithHistory crypto entries = .ok (st, index))
    (hdistinct : HashesDistinct crypto entries entries) :
    (∃ report, auditVerifyOp (readEntries entries) (st, index) rows = .ok report) ↔
      ∀ entry ∈ readEntries entries, ∀ p, entry.operation ≠ .direct (.addDevice p) := by
  constructor
  · rintro ⟨report, hreport⟩
    exact no_addDevice_of_ok hreport
  · intro hother
    refine auditVerifyOp_ok_iff.mpr fun entry hentry => ?_
    obtain ⟨n, s, hash, s', applied, hat⟩ := entryAt_of_mem (verifyChain_of_withHistory h) hentry
    exact entryMirrorProblems_ok (fun ts => expectedRows_ok h hdistinct hat (hother entry hentry) ts) _

theorem readEntries_map {entries : List ChainEntry} (h : ∀ entry ∈ entries, checkPayloadShape (entryJson entry) = some entry) :
    readEntries (entries.map entryJson) = entries := by
  unfold readEntries
  rw [List.filterMap_map]
  exact (List.filterMap_congr h).trans List.filterMap_some

theorem readEntries_exampleChain : readEntries exampleChain = exampleEntries :=
  readEntries_map exampleEntries_read

theorem readEntries_take_six : readEntries (exampleChain.take 6) = exampleEntries.take 6 := by
  unfold exampleChain
  rw [← List.map_take]
  exact readEntries_map fun entry hentry => exampleEntries_read entry (List.mem_of_mem_take hentry)

theorem take_six_no_addDevice : ∀ entry ∈ readEntries (exampleChain.take 6), ∀ p, entry.operation ≠ .direct (.addDevice p) := by
  rw [readEntries_take_six]
  simp [exampleEntries, exampleGenesis, exampleEntry]

theorem exampleChain_addDevice : ¬ ∀ entry ∈ readEntries exampleChain, ∀ p, entry.operation ≠ .direct (.addDevice p) := by
  rw [readEntries_exampleChain]
  simp [exampleEntries, exampleGenesis, exampleEntry]

theorem take_six_hashes : HashesDistinct exampleCrypto (exampleChain.take 6) (exampleChain.take 6) := by
  refine hashesDistinct_of_nodup (exampleChain_hashes.sublist (List.Sublist.map _ ?_))
  rw [readEntries_take_six, readEntries_exampleChain]
  exact List.take_sublist 6 _

/-- The verification ends on the chain before the device was added, and on no longer one. -/
theorem audit_verify_ends_iff_example : ∃ st index, verifyChainWithHistory exampleCrypto exampleChain = .ok (st, index) ∧
    (∀ rows, ¬∃ report, auditVerifyOp (readEntries exampleChain) (st, index) rows = .ok report) ∧
    ∃ st' index', verifyChainWithHistory exampleCrypto (exampleChain.take 6) = .ok (st', index') ∧
      ∀ rows, ∃ report, auditVerifyOp (readEntries (exampleChain.take 6)) (st', index') rows = .ok report := by
  obtain ⟨st, index, h⟩ := exampleChain_accepted
  obtain ⟨st', index', h'⟩ := verifyChainWithHistory_take h (n := 6) (by omega)
  refine ⟨st, index, h, fun rows hends => ?_, st', index', h', fun rows => ?_⟩
  · exact exampleChain_addDevice ((audit_verify_ends_iff exampleCrypto exampleChain st index rows h
      (hashesDistinct_of_nodup exampleChain_hashes)).mp hends)
  · exact (audit_verify_ends_iff exampleCrypto _ st' index' rows h' take_six_hashes).mpr take_six_no_addDevice

end Maruhi.Audit
