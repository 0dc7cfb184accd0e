import Maruhi.ProjectDo.Coherence

/-!
# What each part of an operation keeps
-/

open Text Faults Framing

namespace Maruhi.ProjectDo

open Chain

variable {Event : Type} {setting : Setting Event}

/-! ## Loading and deriving -/

theorem loadedChain_eq {memory : Memory} {disk : Disk Event} {seen : List (Seen Event)}
    (h : Loose setting memory disk seen) :
    (loadedChain setting disk memory.chain).map Prod.fst = fullRead setting disk ∧
      ∀ chain cached, loadedChain setting disk memory.chain = some (chain, cached) →
        ∀ chain', cached = some chain' → disk.initialized = true ∧ fullRead setting disk = some chain' := by
  unfold loadedChain
  cases hcached : memory.chain with
  | none =>
    cases hinit : disk.initialized with
    | false =>
      have hfull : fullRead setting disk = some emptyChain := by
        unfold fullRead
        rw [hinit]
        rfl
      refine ⟨hfull.symm, fun chain cached hsome chain' hchain' => ?_⟩
      cases hsome
      cases hchain'
    | true =>
      have hfull : fullRead setting disk = (loadRowsAfter setting disk 0).map (mergeLoadedDiff emptyChain) := by
        unfold fullRead
        rw [if_pos hinit]
      rw [hfull]
      cases hrows : loadRowsAfter setting disk 0 with
      | none =>
        have hnone : loadRowsAfter setting disk emptyChain.headSeq = none := hrows
        simp [hnone]
      | some rows =>
        have hsome : loadRowsAfter setting disk emptyChain.headSeq = some rows := hrows
        simp [hsome]
  | some chain =>
    obtain ⟨hinit, hfull⟩ := h.chain chain hcached
    have hrows : loadRowsAfter setting disk chain.headSeq = some ⟨[], [], none, 0⟩ := by
      unfold loadRowsAfter
      rw [hinit, loadRowsAfter_head hinit hfull]
      rfl
    simp [hrows, hfull, hinit]

theorem loadChain_spec : Spec setting (Coherent setting) (loadChain setting) (Settled setting) := by
  refine Spec.get.bind fun w => ?_
  refine Spec.through (fun _ m d s => (m = w.memory ∧ d = w.disk) ∧ Coherent setting m d s) ?_ fun _ => ?_
  · refine Spec.modify fun w' hw => ⟨hw.1, hw.2.loose.saw ?_, hw.2.view⟩
    rw [← hw.1.1, ← hw.1.2]
    exact (loadedChain_eq hw.2.loose).1
  · refine Spec.through (fun loaded m d s =>
      (loadedChain setting w.disk w.memory.chain = some loaded ∧ m = w.memory ∧ d = w.disk) ∧ Coherent setting m d s)
      (Spec.orDie (fun loaded hloaded m d s hw => ⟨⟨hloaded, hw.1⟩, hw.2⟩) fun m d s hw => hw.2.loose.right) ?_
    rintro ⟨chain, cached⟩
    refine Spec.through (fun _ => Settled setting chain) (Spec.modify ?_) fun _ => Spec.done fun _ _ _ h => h
    rintro w' ⟨⟨hloaded, hmemory, hdisk⟩, hcoh⟩
    rw [← hmemory, ← hdisk] at hloaded
    obtain ⟨hfull, hcached⟩ := loadedChain_eq hcoh.loose
    rw [hloaded] at hfull
    have hsettled := hcoh.settled hfull.symm
    exact ⟨hsettled.loose.withChain (hcached chain cached hloaded), hsettled.read, hsettled.view⟩

theorem updateStateCache_spec {chain : StoredChain} {view : VerifiedChainView} {n : Nat}
    (hview : verifyEntries setting chain.entries = .ok view) (hn : n ≤ chain.entries.length) :
    Spec setting (Writing setting n chain) (updateStateCache view) fun _ => Settled setting chain := by
  refine Spec.modify fun w hw => ⟨hw.loose.withCurrent _, hw.read, fun cached hcached => ?_⟩
  have hhead := (verifyEntries_seq hview).1
  have hnew : updatedCurrent w.memory.current view = some ⟨view.1.headHashHex, view⟩ := by
    unfold updatedCurrent
    split
    · rfl
    · rename_i old hold
      have hle := hw.view old hold
      rw [if_pos (by omega)]
  rw [show cached = ⟨view.1.headHashHex, view⟩ from Option.some.inj (hcached.symm.trans hnew)]
  exact hview

/-- The derived view, whether cached or verified anew, is the one of the stored entries. -/
theorem deriveStoredState_spec (chain : StoredChain) :
    Spec setting (Settled setting chain) (deriveStoredState setting chain) fun view m d s =>
      verifyEntries setting chain.entries = .ok view ∧ Settled setting chain m d s := by
  refine Spec.get.bind fun w => ?_
  cases hcached : cachedView w.memory.current chain with
  | some verified =>
    refine Spec.through (fun _ m d s => verifyEntries setting chain.entries = .ok verified ∧ Settled setting chain m d s)
      (Spec.modify ?_) fun _ => Spec.done fun _ _ _ h => h
    rintro w' ⟨⟨hmemory, -⟩, hsettled⟩
    have hview : verifyEntries setting chain.entries = .ok verified := by
      rw [← hmemory] at hcached
      unfold cachedView at hcached
      split at hcached
      · cases hcached
      · rename_i cached hcurrent
        split at hcached
        · cases hcached
          exact hsettled.view cached hcurrent
        · cases hcached
    exact ⟨hview, hsettled.loose.saw ⟨chain, hsettled.read, hview.symm⟩, hsettled.read, hsettled.view⟩
  | none =>
    refine Spec.through (fun _ => Settled setting chain) (Spec.modify fun w' hw =>
      ⟨hw.2.loose.saw ⟨chain, hw.2.read, rfl⟩, hw.2.read, hw.2.view⟩) fun _ => ?_
    refine Spec.through (fun view m d s => verifyEntries setting chain.entries = .ok view ∧ Settled setting chain m d s)
      (Spec.orDie (fun view hview m d s hw => ⟨?_, hw⟩) fun m d s hw => hw.loose.right) fun view => ?_
    · cases hresult : verifyEntries setting chain.entries with
      | error failure => rw [hresult] at hview; cases hview
      | ok view' => rw [hresult] at hview; cases hview; rfl
    · refine Spec.assuming fun hview => ?_
      refine Spec.through (fun _ => Settled setting chain) ?_ fun _ => Spec.done fun _ _ _ h => ⟨hview, h⟩
      exact (updateStateCache_spec hview (Nat.le_refl _)).pre fun _ _ _ h => h.writing (Nat.le_refl _)

/-! ## Writing -/

theorem fullRead_insertRow {disk disk' : Disk Event} {chain : StoredChain} {entry : ChainEntry} {hash : JsString} {bytes : Nat}
    (hread : fullRead setting disk = some chain) (hdecode : setting.decodeEntry (entryText entry) = some entry)
    (hseq : entry.seq = chain.headSeq + 1)
    (hinsert : insertRow ⟨entry.seq, entryText entry, hash, bytes⟩ disk = some disk') :
    disk'.initialized = true ∧ disk'.auditEvents = disk.auditEvents ∧
      disk'.chainEntries.rows = disk.chainEntries.rows ++ [⟨entry.seq, entryText entry, hash, bytes⟩] ∧
      fullRead setting disk' = some (chain.extend entry hash bytes) := by
  unfold insertRow at hinsert
  simp only [guard, Option.bind_eq_bind, Option.bind_eq_some_iff, Option.pure_def, Option.some.injEq] at hinsert
  obtain ⟨_, hinit, table, htable, rfl⟩ := hinsert
  have hinit : disk.initialized = true := by
    by_contra hne
    rw [if_neg hne] at hinit
    cases hinit
  obtain ⟨table', htable', hrows⟩ := SeqTable.insert?_last disk.chainEntries
    ⟨entry.seq, entryText entry, hash, bytes⟩ (fun other hm => by
      have hle := le_headSeq hinit hread hm
      show other.seq < entry.seq
      omega)
  rw [htable] at htable'
  cases htable'
  refine ⟨hinit, rfl, hrows, ?_⟩
  obtain ⟨entries, hentries, rfl⟩ := fullRead_initialized hinit hread
  have hafter : table.after 0 = disk.chainEntries.after 0 ++ [⟨entry.seq, entryText entry, hash, bytes⟩] := by
    unfold SeqTable.after
    rw [hrows, List.filter_append, List.filter_singleton]
    simp [hseq]
  unfold fullRead loadRowsAfter
  simp only [hinit, if_true, hafter, List.mapM_append, hentries, List.mapM_cons, List.mapM_nil, hdecode, guard,
    Option.bind_eq_bind, Option.bind_some, Option.pure_def, Option.map_some]
  simp [mergeLoadedDiff, StoredChain.extend, emptyChain]

theorem insertSync_spec {chain : StoredChain} {entry : ChainEntry} {hash : JsString} {bytes n : Nat}
    (hdecode : setting.decodeEntry (entryText entry) = some entry) (hseq : entry.seq = chain.headSeq + 1) :
    Spec setting (Writing setting n chain) (insertSync entry hash bytes) fun _ =>
      Writing setting n (chain.extend entry hash bytes) := by
  refine Spec.through (fun _ m d s =>
    (∀ cached, m.chain = some cached → cached = chain) ∧ d.initialized = true ∧
      Writing setting n (chain.extend entry hash bytes) { m with chain := none } d s) ?_ fun _ => ?_
  · refine Spec.exec (fun m d s h => h.loose.right) fun m d s h d' hinsert => ?_
    obtain ⟨hinit, haudit, hrows, hread⟩ := fullRead_insertRow h.read hdecode hseq hinsert
    refine ⟨fun cached hcached => ?_, hinit, ⟨⟨fun c hc => (by cases hc), ?_, ?_, ?_, h.loose.right⟩, hread, h.view⟩⟩
    · have hcached := (h.loose.chain cached hcached).2
      rw [h.read] at hcached
      exact (Option.some.inj hcached).symm
    · rw [haudit]
      exact h.loose.seq
    · exact fun hblank => by rw [hinit] at hblank; cases hblank
    · intro row hm read hread'
      rw [hrows] at hm
      rcases List.mem_append.mp hm with hm | hm
      · exact h.loose.inPlace row hm read hread'
      · rw [List.mem_singleton.mp hm] at hread' ⊢
        rw [hdecode] at hread'
        exact congrArg ChainEntry.seq (Option.some.inj hread').symm
  · refine Spec.modify fun w hw => ?_
    obtain ⟨hcached, hinit, hloose, hread, hview⟩ := hw
    refine ⟨⟨fun chain' hchain' => ?_, hloose.seq, hloose.blank, hloose.inPlace, hloose.right⟩, hread, hview⟩
    refine ⟨hinit, hread.trans ?_⟩
    change extendCached w.memory.chain entry hash bytes = some chain' at hchain'
    unfold extendCached at hchain'
    split at hchain'
    · cases hchain'
    · rename_i cached hcached'
      rw [hcached cached hcached', if_pos hseq] at hchain'
      exact hchain'

/-! ## The audit log -/

theorem insert?_next {table table' : SeqTable (AuditRow Event) AuditRow.seq} {event : Event}
    (h : table.insert? ⟨table.maxSeq + 1, event⟩ = some table') : table'.maxSeq = table.maxSeq + 1 := by
  obtain ⟨table'', htable'', hrows⟩ := SeqTable.insert?_last table ⟨table.maxSeq + 1, event⟩
    fun other hm => Nat.lt_succ_of_le (table.le_maxSeq hm)
  rw [h] at htable''
  cases htable''
  unfold SeqTable.maxSeq
  rw [hrows]
  simp [SeqTable.maxSeq]

theorem foldlM_insert?_max {events : List Event} {table table' : SeqTable (AuditRow Event) AuditRow.seq}
    (h : (events.zipIdx (table.maxSeq + 1)).foldlM (fun table e => table.insert? ⟨e.2, e.1⟩) table = some table') :
    table'.maxSeq = table.maxSeq + events.length := by
  induction events generalizing table with
  | nil =>
    cases h
    rfl
  | cons event rest ih =>
    rw [List.zipIdx_cons, List.foldlM_cons] at h
    obtain ⟨mid, hmid, hrest⟩ := Option.bind_eq_some_iff.mp h
    have hmax := insert?_next hmid
    rw [← hmax] at hrest
    rw [ih hrest, hmax, List.length_cons]
    omega

theorem insertEvents_frame {seq : Nat} {events : List Event} {disk disk' : Disk Event}
    (h : insertEvents seq events disk = some disk') :
    disk'.initialized = disk.initialized ∧ disk'.chainEntries = disk.chainEntries ∧
      (seq = disk.auditEvents.maxSeq + 1 → disk'.auditEvents.maxSeq = disk.auditEvents.maxSeq + events.length) := by
  unfold insertEvents at h
  simp only [Option.bind_eq_bind, Option.bind_eq_some_iff, Option.pure_def, Option.some.injEq] at h
  obtain ⟨_, -, table, htable, rfl⟩ := h
  refine ⟨rfl, rfl, fun hseq => ?_⟩
  rw [hseq] at htable
  exact foldlM_insert?_max htable

theorem fullRead_congr {disk disk' : Disk Event} (hinit : disk'.initialized = disk.initialized)
    (hchain : disk'.chainEntries = disk.chainEntries) : fullRead setting disk' = fullRead setting disk := by
  unfold fullRead loadRowsAfter
  rw [hinit, hchain]

theorem Loose.withLog {memory : Memory} {disk disk' : Disk Event} {seen : List (Seen Event)}
    (h : Loose setting memory disk seen) (hinit : disk'.initialized = disk.initialized)
    (hchain : disk'.chainEntries = disk.chainEntries)
    (hseq : ∀ n, memory.nextSeqCache = some n → n = disk'.auditEvents.maxSeq + 1) : Loose setting memory disk' seen := by
  refine ⟨fun chain hcached => ?_, hseq, ?_, ?_, h.right⟩
  · rw [hinit, fullRead_congr hinit hchain]
    exact h.chain chain hcached
  · rw [hinit, hchain]
    exact h.blank
  · rw [hchain]
    exact h.inPlace

section Appending
variable {keeps : Option CachedView → Prop} {chain : StoredChain}

theorem nextSeq_spec : Spec setting (Holding setting keeps chain) nextSeq fun seq m d s =>
    seq = d.auditEvents.maxSeq + 1 ∧ Holding setting keeps chain m d s := by
  refine Spec.get.bind fun w => ?_
  refine Spec.through (fun _ m d s =>
    w.memory.nextSeqCache.getD (w.disk.auditEvents.maxSeq + 1) = d.auditEvents.maxSeq + 1 ∧ Holding setting keeps chain m d s)
    (Spec.modify ?_) fun _ => Spec.done fun _ _ _ h => h
  rintro w' ⟨⟨hmemory, hdisk⟩, hheld⟩
  have hseq : w.memory.nextSeqCache.getD (w.disk.auditEvents.maxSeq + 1) = w'.disk.auditEvents.maxSeq + 1 := by
    rw [← hmemory, ← hdisk]
    cases hnext : w'.memory.nextSeqCache with
    | none => rfl
    | some n => exact hheld.loose.seq n hnext
  refine ⟨hseq, Loose.saw (hheld.loose.withNextSeq ?_) ?_, hheld.read, hheld.view⟩
  · intro n hn
    exact (Option.some.inj hn).symm.trans hseq
  · rw [← hdisk]
    exact hdisk ▸ hseq

theorem appendChunk_spec (chunk : List Event) :
    Spec setting (Holding setting keeps chain) (appendChunk chunk) fun _ => Holding setting keeps chain := by
  refine nextSeq_spec.bind fun seq => ?_
  refine Spec.through (fun _ m d s =>
    d.auditEvents.maxSeq + 1 = seq + chunk.length ∧ Holding setting keeps chain { m with nextSeqCache := none } d s) ?_ fun _ => ?_
  · refine Spec.onDefect (fun _ h => h) ?_
    refine Spec.exec (fun m d s h => h.2.loose.right) ?_
    rintro m d s ⟨hseq, hheld⟩ d' hinsert
    obtain ⟨hinit, hchain, hmax⟩ := insertEvents_frame hinsert
    have hmax := hmax hseq
    refine ⟨by omega, hheld.loose.withoutNextSeq.withLog hinit hchain
      (fun n hn => by cases hn), ?_, hheld.view⟩
    rw [fullRead_congr hinit hchain]
    exact hheld.read
  · refine Spec.modify fun w hw => ?_
    obtain ⟨hmax, hheld⟩ := hw
    refine ⟨⟨hheld.loose.chain, fun n hn => ?_, hheld.loose.blank, hheld.loose.inPlace, hheld.loose.right⟩, hheld.read, hheld.view⟩
    exact (Option.some.inj hn).symm.trans hmax.symm

theorem appendChunks_spec (chunks : List (List Event)) :
    Spec setting (Holding setting keeps chain) (appendChunks chunks) fun _ => Holding setting keeps chain := by
  induction chunks with
  | nil => exact Spec.done fun _ _ _ h => h
  | cons chunk rest ih => exact (appendChunk_spec chunk).bind fun _ => ih

theorem appendManySync_spec (events : List Event) :
    Spec setting (Holding setting keeps chain) (appendManySync setting events) fun _ => Holding setting keeps chain := by
  refine Spec.through (fun _ => Holding setting keeps chain) ?_ fun _ => appendChunks_spec _
  exact Spec.orDie (fun _ _ _ _ _ h => h) fun _ _ _ h => h.loose.right

theorem appendEach_spec (effects : List (List Event)) :
    Spec setting (Holding setting keeps chain) (appendEach setting effects) fun _ => Holding setting keeps chain := by
  induction effects with
  | nil => exact Spec.mayDie fun _ _ _ h => h.loose.right
  | cons events rest ih =>
    exact (Spec.mayDie fun _ _ _ h => h.loose.right).bind fun _ => (appendManySync_spec events).bind fun _ => ih

end Appending

end Maruhi.ProjectDo
