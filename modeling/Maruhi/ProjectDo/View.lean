import Maruhi.ProjectDo.Specs

/-!
# The view in memory is the stored one

Over every sequence of operations, each refused, done or dead at any of its steps.
-/

open Text Faults Framing

namespace Maruhi.ProjectDo

open Chain

variable {Event : Type} {setting : Setting Event}

/-! ## Acceptance -/

theorem checkEntrySize_spec {before : Assertion Event} (h : ∀ m d s, before m d s → Coherent setting m d s)
    (entry : ChainEntry) : Spec setting before (checkEntrySize entry) fun _ => before := by
  unfold checkEntrySize
  split
  · exact Spec.refuse h
  · exact (Spec.check h).bind fun _ => Spec.done fun _ _ _ h => h

theorem verifyExtended_spec {before : Assertion Event} (h : ∀ m d s, before m d s → Coherent setting m d s)
    (entries : List ChainEntry) : Spec setting before (verifyExtended setting entries) fun applied m d s =>
      verifyEntries setting entries = .ok applied ∧ before m d s := by
  unfold verifyExtended
  split
  · rename_i applied hok
    exact Spec.done fun _ _ _ h => ⟨hok, h⟩
  · exact Spec.refuse h
  · exact Spec.die fun m d s hw => (h m d s hw).loose.right

theorem verifyAcceptableEntry_spec {before : Assertion Event} (h : ∀ m d s, before m d s → Coherent setting m d s)
    (chain : StoredChain) (entry : ChainEntry) :
    Spec setting before (verifyAcceptableEntry setting chain entry) fun accepted m d s =>
      verifyEntries setting (chain.entries ++ [entry]) = .ok accepted.2 ∧ before m d s :=
  (checkEntrySize_spec h entry).bind fun _ => (Spec.check h).bind fun _ =>
    (verifyExtended_spec h _).bind fun _ => Spec.done fun _ _ _ h => h

theorem verifyAcceptableEntryPair_spec {before : Assertion Event} (h : ∀ m d s, before m d s → Coherent setting m d s)
    (chain : StoredChain) (first second : ChainEntry) :
    Spec setting before (verifyAcceptableEntryPair setting chain first second) fun accepted m d s =>
      verifyEntries setting (chain.entries ++ [first, second]) = .ok accepted.2.2 ∧ before m d s :=
  (checkEntrySize_spec h first).bind fun _ => (checkEntrySize_spec h second).bind fun _ =>
    (Spec.check h).bind fun _ => (verifyExtended_spec h _).bind fun _ => Spec.done fun _ _ _ h => h

theorem next_seq {chain : StoredChain} {more : List ChainEntry} {view : VerifiedChainView} {memory : Memory}
    {disk : Disk Event} {seen : List (Seen Event)} (h : Settled setting chain memory disk seen)
    (hview : verifyEntries setting (chain.entries ++ more) = .ok view) :
    ∀ i entry, more[i]? = some entry → entry.seq = chain.headSeq + i + 1 := by
  have hseq := (verifyEntries_seq hview).2
  have hhead := headSeq_eq_length h.loose.inPlace h.read fun i entry hi =>
    hseq i entry (by rw [List.getElem?_append_left (List.getElem?_eq_some_iff.mp hi).1]; exact hi)
  intro i entry hi
  have hnext := hseq (chain.entries.length + i) entry (by
    rw [List.getElem?_append_right (Nat.le_add_right _ _), Nat.add_sub_cancel_left]
    exact hi)
  omega

theorem commitAcceptedEntry_spec {chain : StoredChain} {entry : WireEntry setting} {applied : VerifiedChainView}
    (hview : verifyEntries setting (chain.entries ++ [entry.1]) = .ok applied) (bytes : Nat) (acceptance : Acceptance Event) :
    Spec setting (Settled setting chain) (commitAcceptedEntry setting entry applied bytes acceptance) fun _ =>
      Writing setting chain.entries.length (chain.extend entry applied.1.headHashHex bytes) := by
  refine Spec.knowing (fun m d s h => next_seq h hview 0 entry.1 rfl) fun hseq => ?_
  refine (Spec.mayDie fun _ _ _ h => h.loose.right).bind fun _ => ?_
  refine Spec.pre ?_ fun _ _ _ h => Settled.writing h (Nat.le_refl _)
  exact (insertSync_spec entry.2 hseq).bind fun _ => (appendManySync_spec _).bind fun _ => appendEach_spec _

theorem accept_spec {chain : StoredChain} {entry : WireEntry setting} {applied : VerifiedChainView}
    (hview : verifyEntries setting (chain.entries ++ [entry.1]) = .ok applied) (bytes : Nat) (acceptance : Acceptance Event) :
    Spec setting (Settled setting chain)
      (commitAcceptedEntry setting entry applied bytes acceptance >>= fun _ => updateStateCache applied) fun _ =>
        Coherent setting := by
  refine (commitAcceptedEntry_spec hview bytes acceptance).bind fun _ => ?_
  refine Spec.post (updateStateCache_spec hview ?_) fun _ _ _ _ h => h.coherent
  simp [StoredChain.extend]

theorem insertAcceptedEntryPairSync_spec {chain : StoredChain} {first second : WireEntry setting}
    {applied : VerifiedChainView} (hview : verifyEntries setting (chain.entries ++ [first.1, second.1]) = .ok applied)
    (firstBytes secondBytes : Nat) (firstAcceptance secondAcceptance : Acceptance Event) :
    Spec setting (Settled setting chain)
      (insertAcceptedEntryPairSync setting first second applied firstBytes secondBytes firstAcceptance secondAcceptance)
      fun _ => Writing setting chain.entries.length
        ((chain.extend first second.1.prevHashHex firstBytes).extend second applied.1.headHashHex secondBytes) := by
  refine Spec.knowing (fun m d s h => (⟨next_seq h hview 0 first.1 rfl, next_seq h hview 1 second.1 rfl⟩ : _ ∧ _)) ?_
  rintro ⟨hfirst, hsecond⟩
  have hfollows : second.1.seq = (chain.extend first.1 second.1.prevHashHex firstBytes).headSeq + 1 := by
    change second.1.seq = first.1.seq + 1
    omega
  refine Spec.pre ?_ fun _ _ _ h => Settled.writing h (Nat.le_refl _)
  refine (insertSync_spec first.2 hfirst).bind fun _ => (appendManySync_spec _).bind fun _ => (appendEach_spec _).bind fun _ => ?_
  exact (insertSync_spec second.2 hfollows).bind fun _ => (appendManySync_spec _).bind fun _ => appendEach_spec _

/-! ## Programs -/

theorem loadInitializedChain_spec :
    Spec setting (Coherent setting) (loadInitializedChain setting) (Settled setting) :=
  loadChain_spec.bind fun _ => (Spec.check fun _ _ _ h => Settled.coherent h).bind fun _ =>
    Spec.done fun _ _ _ h => h

theorem requireMemberState_spec :
    Spec setting (Coherent setting) (requireMemberState setting) fun loaded => Settled setting loaded.1 :=
  loadInitializedChain_spec.bind fun chain => (deriveStoredState_spec chain).bind fun _ =>
    (Spec.judge fun _ _ _ h => h.2.coherent).bind fun _ => Spec.done fun _ _ _ h => h.2

theorem acceptEntry_spec (parentHeadHashHex : JsString) (entry : WireEntry setting) (acceptance : Acceptance Event) :
    Spec setting (Coherent setting) (acceptEntry setting parentHeadHashHex entry acceptance) fun _ => Coherent setting := by
  refine (requireMemberState_spec).bind fun loaded => ?_
  refine (Spec.check fun _ _ _ h => Settled.coherent h).bind fun _ => ?_
  refine (Spec.judge fun _ _ _ h => Settled.coherent h).bind fun _ => ?_
  refine (verifyAcceptableEntry_spec (fun _ _ _ h => Settled.coherent h) loaded.1 entry.1).bind fun accepted => ?_
  refine (Spec.judge fun _ _ _ h => Settled.coherent h.2).bind fun _ => ?_
  exact Spec.assuming fun hview => accept_spec hview _ _

theorem appendProgram_spec (parentHeadHashHex : JsString) (entry : WireEntry setting) (acceptance : Acceptance Event) :
    Spec setting (Coherent setting) (appendProgram setting parentHeadHashHex entry acceptance) fun _ => Coherent setting := by
  refine (Spec.check fun _ _ _ h => h).bind fun _ => ?_
  split <;> exact acceptEntry_spec _ _ _

theorem deleteEnvironmentCompositeProgram_spec (parentHeadHashHex : JsString) (entry : WireEntry setting)
    (acceptance : Acceptance Event) :
    Spec setting (Coherent setting) (deleteEnvironmentCompositeProgram setting parentHeadHashHex entry acceptance) fun _ =>
      Coherent setting :=
  (Spec.check fun _ _ _ h => h).bind fun _ => acceptEntry_spec _ _ _

theorem compositeProgram_spec (parentHeadHashHex : JsString) (entry checkpoint : WireEntry setting)
    (entryAcceptance checkpointAcceptance : Acceptance Event) :
    Spec setting (Coherent setting)
      (compositeProgram setting parentHeadHashHex entry checkpoint entryAcceptance checkpointAcceptance) fun _ =>
        Coherent setting := by
  refine (requireMemberState_spec).bind fun loaded => ?_
  refine (Spec.check fun _ _ _ h => Settled.coherent h).bind fun _ => ?_
  refine (Spec.judge fun _ _ _ h => Settled.coherent h).bind fun _ => ?_
  refine (verifyAcceptableEntryPair_spec (fun _ _ _ h => Settled.coherent h) loaded.1 entry.1 checkpoint.1).bind fun accepted => ?_
  refine (Spec.judge fun _ _ _ h => Settled.coherent h.2).bind fun _ => ?_
  refine Spec.assuming fun hview => ?_
  refine (insertAcceptedEntryPairSync_spec hview _ _ _ _).bind fun _ => ?_
  refine Spec.post (updateStateCache_spec ?_ ?_) fun _ _ _ _ h => h.coherent
  · simpa [StoredChain.extend] using hview
  · simp [StoredChain.extend]

theorem dataProgram_spec (effects : List (List Event)) :
    Spec setting (Coherent setting) (dataProgram setting effects) fun _ => Coherent setting :=
  (requireMemberState_spec).bind fun _ => (appendEach_spec effects).bind fun _ =>
    (Spec.judge fun _ _ _ h => Settled.coherent h).post fun _ _ _ _ h => Settled.coherent h

/-- An empty table reads like a missing one. -/
theorem ensureProjectDoTables_spec {chain : StoredChain} :
    Spec setting (Settled setting chain) ensureProjectDoTables fun _ => Settled setting chain := by
  refine Spec.exec (fun _ _ _ h => h.loose.right) ?_
  rintro m d s h d' ⟨⟩
  cases hinit : d.initialized with
  | true =>
    have hsame : { d with initialized := true } = d := by
      rw [← hinit]
    rw [hsame]
    exact h
  | false =>
    have hrows := h.loose.blank hinit
    have hread : fullRead setting { d with initialized := true } = fullRead setting d := by
      unfold fullRead loadRowsAfter SeqTable.after
      rw [hinit, hrows]
      rfl
    refine ⟨⟨fun chain' hcached => ?_, h.loose.seq, fun hblank => (by cases hblank), h.loose.inPlace, h.loose.right⟩,
      hread.trans h.read, h.view⟩
    have hold := (h.loose.chain chain' hcached).1
    rw [hinit] at hold
    cases hold

theorem initProgram_spec (expectedProjectId : JsString) (entry : WireEntry setting) (admitFresh : Bool)
    (acceptance : Acceptance Event) :
    Spec setting (Coherent setting) (initProgram setting expectedProjectId entry admitFresh acceptance) fun _ =>
      Coherent setting := by
  refine loadChain_spec.bind fun chain => ?_
  split
  · split
    · exact Spec.die fun _ _ _ h => h.loose.right
    · exact Spec.refuse fun _ _ _ h => h.coherent
  · refine (Spec.check fun _ _ _ h => Settled.coherent h).bind fun _ => ?_
    refine (verifyAcceptableEntry_spec (fun _ _ _ h => Settled.coherent h) chain entry.1).bind fun accepted => ?_
    refine Spec.assuming fun hview => ?_
    refine (Spec.check fun _ _ _ h => Settled.coherent h).bind fun _ => ?_
    exact ensureProjectDoTables_spec.bind fun _ => accept_spec hview _ _

/-! ## The mirror -/

theorem coherent_discarded {w : World Event} (hblank : w.disk.initialized = false → w.disk.chainEntries.rows = [])
    (hplace : InPlace setting w.disk.chainEntries.rows) (hright : AllRight setting w.memory w.disk w.seen) :
    Coherent setting (discardMemory w).memory w.disk w.seen :=
  ⟨⟨fun _ h => (by cases h), fun _ h => (by cases h), hblank, hplace, hright⟩, fun _ h => (by cases h)⟩

theorem stagedEntryOk_seq {row : ChainRow} {seq : Nat} {entry : ChainEntry}
    (h : stagedEntryOk setting row seq = some entry) :
    setting.decodeEntry row.entryJson = some entry ∧ entry.seq = row.seq := by
  unfold stagedEntryOk at h
  simp only [guard, Option.bind_eq_bind, Option.bind_eq_some_iff, Option.pure_def, Option.some.injEq] at h
  obtain ⟨read, hread, _, hseq, _, -, _, -, rfl⟩ := h
  refine ⟨hread, ?_⟩
  split at hseq
  · rename_i hboth
    simp only [Bool.and_eq_true, decide_eq_true_eq] at hboth
    exact hboth.2
  · cases hseq

theorem inPlace_of_staged {rows : List ChainRow} (h : verifyStagedChain setting rows = true) : InPlace setting rows := by
  unfold verifyStagedChain at h
  split at h
  · cases h
  · rename_i entries hentries
    intro row hrow entry hread
    obtain ⟨i, hi⟩ := List.mem_iff_getElem?.mp hrow
    have hmem : (row, i + 1) ∈ rows.zipIdx 1 := by
      rw [List.mk_mem_zipIdx_iff_le_and_getElem?_sub]
      exact ⟨by omega, by simpa using hi⟩
    obtain ⟨staged, hstaged⟩ := exists_of_mapM hentries hmem
    obtain ⟨hread', hseq⟩ := stagedEntryOk_seq hstaged
    rw [hread'] at hread
    cases hread
    exact hseq

theorem commitMirrorReplica_frame {replica : Replica Event} {disk disk' : Disk Event}
    (h : commitMirrorReplica replica disk = some disk') :
    disk'.initialized = true ∧ disk'.chainEntries = replica.chainEntries := by
  unfold commitMirrorReplica at h
  simp only [guard, Option.bind_eq_bind, Option.bind_eq_some_iff, Option.pure_def, Option.some.injEq] at h
  obtain ⟨_, hinit, table, -, rfl⟩ := h
  refine ⟨?_, rfl⟩
  by_contra hne
  rw [if_neg hne] at hinit
  cases hinit

theorem mirrorPageProgram_spec (replica : Option (Replica Event)) :
    Spec setting (Coherent setting) (mirrorPageProgram setting replica) fun _ => Coherent setting := by
  refine (requireMemberState_spec).bind fun loaded => Spec.get.bind fun w => ?_
  refine Spec.pre (?_ : Spec setting (Settled setting loaded.1) _ _) fun _ _ _ h => h.2
  refine (Spec.check fun _ _ _ h => Settled.coherent h).bind fun _ => ?_
  refine (Spec.judge fun _ _ _ h => Settled.coherent h).bind fun _ => ?_
  refine (Spec.mayDie fun _ _ _ h => h.loose.right).bind fun _ => ?_
  refine (Spec.judge fun _ _ _ h => Settled.coherent h).bind fun _ => ?_
  cases replica with
  | none => exact Spec.done fun _ _ _ h => h.coherent
  | some replica =>
    refine Spec.through (fun _ m d s => verifyStagedChain setting replica.chainEntries.rows = true ∧
      Settled setting loaded.1 m d s) (Spec.require (fun hok m d s h => ⟨?_, h⟩) fun _ _ _ h => h.coherent) fun _ => ?_
    · exact ((Bool.and_eq_true _ _).mp hok).2
    · refine Spec.assuming fun hstaged => ?_
      refine (Spec.judge fun _ _ _ h => Settled.coherent h).bind fun _ => ?_
      split
      · exact Spec.refuse fun _ _ _ h => h.coherent
      · rename_i disk hcommit
        obtain ⟨hinit, hrows⟩ := commitMirrorReplica_frame hcommit
        refine (Spec.mayDie fun _ _ _ h => h.loose.right).bind fun _ => ?_
        refine Spec.through (fun _ m d s => d = disk ∧ AllRight setting m d s)
          (Spec.modify fun _ hw => ⟨rfl, hw.loose.right⟩) fun _ => ?_
        refine Spec.through (fun _ => Coherent setting) (Spec.modify ?_) fun _ => Spec.mayDie fun _ _ _ h => h.loose.right
        rintro w' ⟨hdisk, hright⟩
        refine coherent_discarded ?_ ?_ hright
        · rw [hdisk, hinit]
          exact fun hfalse => by cases hfalse
        · rw [hdisk, hrows]
          exact inPlace_of_staged hstaged

theorem setMirror_spec {chain : StoredChain} (mark : Bool) :
    Spec setting (Settled setting chain) (exec fun disk => some { disk with mirror := mark }) fun _ => Coherent setting := by
  refine Spec.exec (fun _ _ _ h => h.loose.right) ?_
  rintro m d s h d' ⟨⟩
  exact Settled.coherent ⟨h.loose.withLog rfl rfl h.loose.seq, (fullRead_congr rfl rfl).trans h.read, h.view⟩

theorem markMirrorProgram_spec : Spec setting (Coherent setting) (markMirrorProgram setting) fun _ => Coherent setting :=
  (requireMemberState_spec).bind fun _ => (Spec.judge fun _ _ _ h => Settled.coherent h).bind fun _ => setMirror_spec true

theorem unmarkMirrorProgram_spec :
    Spec setting (Coherent setting) (unmarkMirrorProgram setting) fun _ => Coherent setting := by
  refine (requireMemberState_spec).bind fun loaded => Spec.get.bind fun w => ?_
  refine Spec.pre (?_ : Spec setting (Settled setting loaded.1) _ _) fun _ _ _ h => h.2
  exact (Spec.check fun _ _ _ h => Settled.coherent h).bind fun _ => setMirror_spec false

/-! ## Defects -/

/-- What a storage is like in every coherent world. -/
structure Sound (setting : Setting Event) (disk : Disk Event) : Prop where
  blank : disk.initialized = false → disk.chainEntries.rows = []
  inPlace : InPlace setting disk.chainEntries.rows

theorem Coherent.sound {memory : Memory} {disk : Disk Event} {seen : List (Seen Event)}
    (h : Coherent setting memory disk seen) : Sound setting disk :=
  ⟨h.loose.blank, h.loose.inPlace⟩

/-- The coherent worlds on one storage. -/
def OnDisk (setting : Setting Event) (disk : Disk Event) : Assertion Event := fun memory disk' seen =>
  disk' = disk ∧ Coherent setting memory disk seen

/-- What the memory keeps agrees with the storage that a rollback brings back. -/
def RolledBack (setting : Setting Event) (disk : Disk Event) : Assertion Event := fun memory _ seen =>
  Coherent setting memory disk seen

/-- A program on a storage that is rolled back where it dies. -/
def Guarded (setting : Setting Event) (task : Task Event Unit) : Prop :=
  ∀ disk, Triple (OnDisk setting disk).At task (fun _ => Assertion.At (Coherent setting))
    (Assertion.At (Coherent setting)) (RolledBack setting disk).At

theorem OnDisk.coherent {disk disk' : Disk Event} {memory : Memory} {seen : List (Seen Event)}
    (h : OnDisk setting disk memory disk' seen) : Coherent setting memory disk' seen :=
  h.1 ▸ h.2

theorem OnDisk.sound {disk disk' : Disk Event} {memory : Memory} {seen : List (Seen Event)}
    (h : OnDisk setting disk memory disk' seen) : Sound setting disk :=
  h.2.sound

/-- A discarded memory agrees with any sound storage. -/
theorem guarded_invalidate {task : Task Event Unit} (h : Spec setting (Coherent setting) task fun _ => Coherent setting) :
    Guarded setting (invalidateCachesOnDefect task) := by
  rintro disk w hw
  have hsound := hw.2.sound
  refine Triple.onDefect h (fun w' hright => ?_) w hw.coherent
  exact coherent_discarded (w := { w' with disk := disk }) hsound.blank hsound.inPlace hright

theorem coherent_initialized {memory : Memory} {disk : Disk Event} {seen : List (Seen Event)} (initialized : Bool)
    (h : Coherent setting memory disk seen) : Coherent setting { memory with initialized := initialized } disk seen :=
  ⟨⟨h.loose.chain, h.loose.seq, h.loose.blank, h.loose.inPlace, h.loose.right⟩, h.view⟩

theorem guarded_runData {task : Task Event Unit} (h : Spec setting (Coherent setting) task fun _ => Coherent setting) :
    Guarded setting (runData task) := by
  intro disk
  refine Triple.bind (Q := fun _ => (OnDisk setting disk).At)
    (Triple.modify fun w hw => ⟨hw.1, coherent_initialized _ hw.2⟩) fun _ => ?_
  refine Triple.bind (Q := fun _ => (OnDisk setting disk).At) (Triple.get fun _ hw => hw) fun w => ?_
  exact (Triple.require (fun _ _ hw => hw) fun _ hw => OnDisk.coherent hw).bind fun _ => guarded_invalidate h disk

theorem guarded_runWrite {task : Task Event Unit} (h : Spec setting (Coherent setting) task fun _ => Coherent setting) :
    Guarded setting (runWrite setting task) := by
  apply guarded_runData
  refine (requireMemberState_spec).bind fun loaded => ?_
  refine Spec.through (fun _ => Coherent setting) ?_ fun _ => h
  refine Spec.get.bind fun w => ?_
  exact Spec.pre (Spec.check fun _ _ _ hw => hw) fun _ _ _ hw => hw.2.coherent

theorem guarded_init (expectedProjectId : JsString) (entry : WireEntry setting) (admitFresh : Bool)
    (acceptance : Acceptance Event) :
    Guarded setting (perform setting (.init expectedProjectId entry admitFresh acceptance)) := fun disk =>
  (guarded_invalidate (initProgram_spec expectedProjectId entry admitFresh acceptance) disk).bind fun _ =>
    Triple.modify fun _ hw => coherent_initialized _ hw

/-! ## Restore -/

/-- Rows that are in place, and nothing wrong seen of the storage. -/
def Bare (setting : Setting Event) : Assertion Event := fun memory disk seen =>
  disk.initialized = true ∧ InPlace setting disk.chainEntries.rows ∧ AllRight setting memory disk seen

theorem restoreSnapshot_triple {body : Body Event} (hbody : InPlace setting body.chainEntries.rows) :
    Triple (Bare setting).At (restoreSnapshot body) (fun _ => (Bare setting).At) (Bare setting).At
      (Assertion.At (AllRight setting)) := by
  refine Triple.bind (Q := fun _ => (Bare setting).At) (Triple.get fun _ hw => hw) fun w => ?_
  refine Triple.bind (Q := fun _ => (Bare setting).At) (Triple.require (fun _ _ hw => hw) fun _ hw => hw) fun _ => ?_
  refine (exec_triple (Q := Bare setting) (fun _ _ _ h => h.2.2) ?_).bind fun _ => ?_
  · rintro m d s h d' ⟨⟩
    exact h
  · refine (judge_triple fun _ _ _ h => h).bind fun _ => exec_triple (fun _ _ _ h => h.2.2) ?_
    rintro m d s h d' ⟨⟩
    exact ⟨h.1, hbody, h.2.2⟩

/-- A restore discards the memory however it ends. -/
theorem guarded_restore {body : Body Event} (hbody : InPlace setting body.chainEntries.rows) :
    Guarded setting (restoreProgram body) := by
  intro disk
  refine Triple.knowing (fun w hw => (OnDisk.sound hw : Sound setting disk)) fun hsound => ?_
  have hdied : ∀ m d s, OnDisk setting disk m d s → RolledBack setting disk m d s := fun _ _ _ h => h.2
  have hback : ∀ w : World Event, AllRight setting w.memory w.disk w.seen →
      (RolledBack setting disk).At (discardMemory w) := fun w hright =>
    coherent_discarded (w := { w with disk := disk }) hsound.blank hsound.inPlace hright
  have hkept : ∀ w : World Event, (Bare setting).At w → (Assertion.At (Coherent setting)) (discardMemory w) := fun w hw =>
    coherent_discarded (fun hfalse => by rw [hw.1] at hfalse; cases hfalse) hw.2.1 hw.2.2
  refine (mayDie_triple hdied).bind fun _ => (judge_triple fun _ _ _ h => OnDisk.coherent h).bind fun _ => ?_
  refine (exec_triple (Q := Bare setting) hdied ?_).bind fun _ => ?_
  · rintro m d s ⟨rfl, hcoh⟩ d' ⟨⟩
    exact ⟨rfl, hcoh.loose.inPlace, hcoh.loose.right⟩
  · refine Triple.bind (Q := fun _ => Assertion.At fun m d s => RolledBack setting disk m d s ∧ Coherent setting m d s)
      (Triple.ensuring (restoreSnapshot_triple hbody) (fun _ w hw => ⟨hback w hw.2.2, hkept w hw⟩) hkept hback) fun _ => ?_
    exact Triple.post (mayDie_triple fun _ _ _ h => h.1) fun _ _ hw => hw.2

/-! ## Runs -/

/-- A restore is given a body whose entries are in place. -/
def Operation.FromBackup : Operation setting → Prop
  | .restore body => InPlace setting body.chainEntries.rows
  | _ => True

theorem guarded_perform {operation : Operation setting} (h : operation.FromBackup) :
    Guarded setting (perform setting operation) := by
  cases operation with
  | init expectedProjectId entry admitFresh acceptance => exact guarded_init _ _ _ _
  | append parentHeadHashHex entry acceptance => exact guarded_runWrite (appendProgram_spec _ _ _)
  | composite parentHeadHashHex entry checkpoint entryAcceptance checkpointAcceptance =>
    exact guarded_runWrite (compositeProgram_spec _ _ _ _ _)
  | deleteEnvironment parentHeadHashHex entry acceptance =>
    exact guarded_runWrite (deleteEnvironmentCompositeProgram_spec _ _ _)
  | read effects => exact guarded_runData (dataProgram_spec effects)
  | write effects => exact guarded_runWrite (dataProgram_spec effects)
  | lease effects => exact guarded_invalidate (dataProgram_spec effects)
  | mirrorPage replica => exact guarded_runData (mirrorPageProgram_spec replica)
  | markMirror => exact guarded_runData markMirrorProgram_spec
  | unmarkMirror => exact guarded_runData unmarkMirrorProgram_spec
  | restore body => exact guarded_restore h
  | evict =>
    refine fun disk => Triple.modify fun w hw => ?_
    have hcoh := OnDisk.coherent hw
    have hkept := coherent_initialized w.disk.initialized
      (coherent_discarded hcoh.loose.blank hcoh.loose.inPlace hcoh.loose.right)
    exact hkept

theorem coherent_settle (operation : Operation setting) {w : World Event}
    (h : Coherent setting w.memory w.disk w.seen) :
    Coherent setting (settle setting operation w).memory (settle setting operation w).disk (settle setting operation w).seen := by
  unfold settle
  split
  · exact coherent_initialized _ h
  · exact h

theorem coherent_runCall {call : Call setting} (hcall : call.operation.FromBackup) {w : World Event}
    (h : Coherent setting w.memory w.disk w.seen) :
    Coherent setting (runCall setting w call).memory (runCall setting w call).disk (runCall setting w call).seen := by
  have hrun := guarded_perform hcall w.disk { w with coins := call.coins } ⟨rfl, h⟩
  unfold runCall
  revert hrun
  rcases perform setting call.operation { w with coins := call.coins } with ⟨(value | reason | _), w'⟩ <;> intro hrun
  · exact coherent_settle call.operation hrun
  · exact coherent_settle call.operation hrun
  · exact coherent_settle call.operation (w := { w' with disk := w.disk }) hrun

theorem coherent_start : Coherent setting (World.start : World Event).memory World.start.disk World.start.seen :=
  ⟨⟨fun _ h => (by cases h), fun _ h => (by cases h), fun _ => rfl, fun _ hm => (by cases hm), fun _ hm => (by cases hm)⟩,
    fun _ h => (by cases h)⟩

theorem coherent_run (calls : List (Call setting)) (hcalls : ∀ call ∈ calls, call.operation.FromBackup) :
    Coherent setting (run setting calls).memory (run setting calls).disk (run setting calls).seen := by
  unfold run
  induction calls using List.reverseRecOn with
  | nil => exact coherent_start
  | append_singleton calls call ih =>
    rw [List.foldl_append]
    exact coherent_runCall (hcalls call (by simp)) (ih fun other hm => hcalls other (by simp [hm]))

/-- What every operation of a run loads, derives and assigns is what a full read of its storage says. -/
theorem run_sees_storage (setting : Setting Event) (calls : List (Call setting))
    (hcalls : ∀ call ∈ calls, call.operation.FromBackup) : ∀ o ∈ (run setting calls).seen, o.Right setting :=
  (coherent_run calls hcalls).loose.right

/-! ## A restored project -/

/-- The genesis entry, a device of its owner, and the revocation of the first device. -/
def exampleDecode (text : JsString) : Option ChainEntry := demotedEntries.find? fun entry => entryText entry = text

/-- The log takes any event. -/
def exampleSetting : Setting Unit := ⟨exampleCrypto, exampleDecode, fun _ => true⟩

def addition : ChainEntry := demotedEntries.getD 1 exampleGenesis

def revocation : ChainEntry := demotedEntries.getD 2 exampleGenesis

theorem exampleSetting_decode : ∀ entry ∈ [exampleGenesis, addition, revocation],
    exampleSetting.decodeEntry (entryText entry) = some entry := by decide +kernel

def revocationWire : WireEntry exampleSetting :=
  ⟨revocation, exampleSetting_decode revocation (List.mem_cons_of_mem _ (List.mem_cons_of_mem _ List.mem_cons_self))⟩

def genesisHash : JsString := hex 32 0xf43bf288c234843f9b15a0bc507c1d93ac4255d10f2e7d7cfb3c6210e901e4b1

def additionHash : JsString := hex 32 0xfb1dac06236171202186ad1966eb53012b22955cf45d05fc6e51963b3ad80cf3

def revocationHash : JsString := hex 32 0xf46230486d3866de245229d581e2a9c8e79df0f2c6fa555e0c09333d75a5084f

/-- An evacuation of the first two entries, with the numbers that the second row skips and the hash that it gives. -/
def exampleBody (skipped : Nat) (entryHashHex : JsString) : Body Unit where
  chainEntries := ⟨[⟨1, entryText exampleGenesis, genesisHash, 100⟩,
    ⟨skipped + 2, entryText addition, entryHashHex, 100⟩], List.pairwise_pair.mpr (by simp)⟩
  auditEvents := .empty

/-- The evacuation is restored and an entry appended after the head that its last row gives: refused the first time by
a policy, dead the second time while it writes its audit rows, done the third. The project is read last. -/
def exampleCalls (skipped : Nat) (entryHashHex : JsString) : List (Call exampleSetting) :=
  let append : Operation exampleSetting := .append entryHashHex revocationWire ⟨[()], []⟩
  [⟨.restore (exampleBody skipped entryHashHex), []⟩,
  ⟨append, [false, false, false, true]⟩,
  ⟨append, [false, false, false, false, false, false, true]⟩,
  ⟨append, []⟩,
  ⟨.read [], []⟩]

/-- How each of the calls ends. -/
def exits (setting : Setting Event) (w : World Event) : List (Call setting) → List (Exit Refusal Unit)
  | [] => []
  | call :: rest =>
    (perform setting call.operation { w with coins := call.coins }).1 :: exits setting (runCall setting w call) rest

theorem exampleBody_inPlace : InPlace exampleSetting (exampleBody 0 additionHash).chainEntries.rows := by
  have hgenesis := exampleSetting_decode exampleGenesis List.mem_cons_self
  have haddition := exampleSetting_decode addition (List.mem_cons_of_mem _ List.mem_cons_self)
  intro row hrow entry hread
  rcases List.mem_pair.mp hrow with rfl | rfl
  · cases hgenesis.symm.trans hread
    rfl
  · cases haddition.symm.trans hread
    rfl

set_option maxRecDepth 100000 in
theorem exampleCalls_exits :
    exits exampleSetting .start (exampleCalls 0 additionHash) =
        [.done (), .refused .other, .died, .done (), .done ()] ∧
      (run exampleSetting (exampleCalls 0 additionHash)).disk.chainEntries.rows.map ChainRow.seq = [1, 2, 3] := by
  decide +kernel

theorem run_sees_storage_example :
    exits exampleSetting .start (exampleCalls 0 additionHash) =
        [.done (), .refused .other, .died, .done (), .done ()] ∧
      (run exampleSetting (exampleCalls 0 additionHash)).disk.chainEntries.rows.map ChainRow.seq = [1, 2, 3] ∧
      ∀ o ∈ (run exampleSetting (exampleCalls 0 additionHash)).seen, o.Right exampleSetting := by
  have hbody := exampleBody_inPlace
  refine ⟨exampleCalls_exits.1, exampleCalls_exits.2, run_sees_storage exampleSetting _ fun call hm => ?_⟩
  simp only [exampleCalls, List.mem_cons, List.not_mem_nil, or_false] at hm
  rcases hm with rfl | rfl | rfl | rfl | rfl
  · exact hbody
  all_goals trivial

/-- A view was given of a chain that does not verify. -/
def misread (setting : Setting Event) : Seen Event → Bool
  | .derived (.ok _) disk => (fullRead setting disk).any fun chain => !(verifyEntries setting chain.entries).toBool
  | _ => false

theorem not_right_of_misread {o : Seen Event} (h : misread setting o = true) : ¬ o.Right setting := by
  intro hright
  unfold misread at h
  split at h
  · obtain ⟨chain, hread, hview⟩ := hright
    rw [hread, Option.any_some, ← hview] at h
    cases h
  · cases h

set_option maxRecDepth 100000 in
theorem exampleCalls_misread :
    (run exampleSetting (exampleCalls 3 revocationHash)).seen.any (misread exampleSetting) = true := by
  decide +kernel

/-- A body whose second row is out of place, and names the head that the next entry will have. -/
theorem restored_out_of_place :
    ¬ ∀ (setting : Setting Unit) (calls : List (Call setting)), ∀ o ∈ (run setting calls).seen, o.Right setting := by
  intro h
  obtain ⟨o, hm, hmis⟩ := List.any_eq_true.mp exampleCalls_misread
  exact not_right_of_misread hmis (h exampleSetting (exampleCalls 3 revocationHash) o hm)

end Maruhi.ProjectDo
