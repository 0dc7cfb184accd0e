import Maruhi.Checkpoint.Integrity
import Maruhi.Lib.Register

/-!
# The checkpoint tuples of an environment's versions

What the history index answers for an environment and a manifest version, as the checkpoint entries that carry them.
-/

open Run

namespace Maruhi.Checkpoint
open Chain Audit
open ChainHistoryBuilder (mergeTuple)

/-- The entry at position `n` applies a checkpoint with `tuple` for the environment and the version. -/
structure Issued (crypto : Crypto) (entries : List Json) (e : EnvironmentId) (v n : Nat)
    (tuple : CheckpointEnvironmentEntry) : Prop where
  issued : ∃ s entry hash s' applied p, EntryAt crypto entries n s entry hash s' (some applied) ∧
    applied.operation = .checkpoint p ∧ tuple ∈ p.environments
  environment : tuple.environmentId = e
  version : tuple.manifestVersion = v

/-! ## The recorder as a register -/

def recordAt (history : ChainHistoryBuilder) (e : EnvironmentId) (v : Nat) : Option CheckpointTupleRecord :=
  (history.checkpointTuples.get? e).bind fun perEnv => perEnv.get? v

def registerOf : Option CheckpointTupleRecord → Register Nat (Nat × JsString)
  | none => .empty
  | some (.tuple seq epoch manifestSigHashHex) => .held seq (epoch, manifestSigHashHex)
  | some .conflict => .conflict

theorem registerOf_merge (existing : Option CheckpointTupleRecord) (seq epoch : Nat) (manifestSigHashHex : JsString) :
    registerOf (some (mergeTuple existing seq epoch manifestSigHashHex)) =
      (registerOf existing).put (seq, (epoch, manifestSigHashHex)) := by
  cases existing with
  | none => rfl
  | some record =>
    cases record with
    | conflict => rfl
    | tuple seq' epoch' manifestSigHashHex' =>
      simp only [mergeTuple, registerOf, Register.put, Prod.mk.injEq, Bool.or_eq_true, decide_eq_true_eq]
      by_cases h : epoch = epoch' ∧ manifestSigHashHex = manifestSigHashHex'
      · rw [if_neg (by rw [h.1, h.2]; simp), if_pos h]
      · rw [if_pos, if_neg h]
        rw [not_and_or] at h
        exact h.imp Ne.symm Ne.symm

theorem recordAt_recordTuple (history : ChainHistoryBuilder) (seq : Nat) (tuple : CheckpointEnvironmentEntry)
    (e : EnvironmentId) (v : Nat) : recordAt (history.recordTuple seq tuple) e v =
      if tuple.environmentId = e ∧ tuple.manifestVersion = v then
        some (mergeTuple (recordAt history e v) seq tuple.epoch tuple.manifestSigHashHex)
      else recordAt history e v := by
  unfold recordAt ChainHistoryBuilder.recordTuple
  dsimp only
  rw [OrderedMap.get?_set]
  by_cases he : e = tuple.environmentId
  · subst he
    rw [if_pos rfl, Option.bind_some, OrderedMap.get?_set]
    have hold : ((history.checkpointTuples.get? tuple.environmentId).getD .empty).get? =
        fun w => (history.checkpointTuples.get? tuple.environmentId).bind fun perEnv => perEnv.get? w := by
      cases history.checkpointTuples.get? tuple.environmentId <;> rfl
    rw [hold]
    by_cases hv : v = tuple.manifestVersion
    · subst hv
      rw [if_pos rfl, if_pos ⟨rfl, rfl⟩]
    · rw [if_neg hv, if_neg fun h => hv h.2.symm]
  · rw [if_neg he, if_neg fun h => he h.1.symm]

/-- What a checkpoint puts into the register of the environment and the version. -/
def putsOf (e : EnvironmentId) (v seq : Nat) (environments : List CheckpointEnvironmentEntry) :
    List (Nat × Nat × JsString) :=
  (environments.filter fun tuple => tuple.environmentId = e ∧ tuple.manifestVersion = v).map fun tuple =>
    (seq, tuple.epoch, tuple.manifestSigHashHex)

theorem recordAt_recordCheckpoint (history : ChainHistoryBuilder) (seq : Nat)
    (environments : List CheckpointEnvironmentEntry) (e : EnvironmentId) (v : Nat) :
    registerOf (recordAt (history.recordCheckpoint seq environments) e v) =
      (putsOf e v seq environments).foldl Register.put (registerOf (recordAt history e v)) := by
  unfold ChainHistoryBuilder.recordCheckpoint putsOf
  induction environments generalizing history with
  | nil => rfl
  | cons tuple rest ih =>
    rw [List.foldl_cons, ih, recordAt_recordTuple, List.filter_cons]
    by_cases h : tuple.environmentId = e ∧ tuple.manifestVersion = v
    · rw [if_pos h, if_pos (decide_eq_true h), registerOf_merge]
      rfl
    · rw [if_neg h, if_neg (by simpa using h)]

theorem withOpenTenure_tuples (history : ChainHistoryBuilder) (u : UserId) (f : TenureRecord → TenureRecord) :
    (history.withOpenTenure u f).checkpointTuples = history.checkpointTuples := by
  unfold ChainHistoryBuilder.withOpenTenure
  split <;> rfl

/-- Only a checkpoint changes the records; a deletion leaves them. -/
theorem recordHistory_tuples (history : ChainHistoryBuilder) {applied : AppliedOperation} (seq : Nat) (s : MutableChainState)
    (h : ∀ p, applied.operation ≠ .checkpoint p) :
    (recordHistory history applied seq s).checkpointTuples = history.checkpointTuples := by
  have hstart : ∀ u, (recordTenureStartOf history s u seq).checkpointTuples = history.checkpointTuples := by
    intro u
    unfold recordTenureStartOf
    split
    · rfl
    · split <;> rfl
  obtain ⟨op, actorUserId⟩ := applied
  cases op with
  | genesis p => exact hstart _
  | addMember p => exact hstart _
  | changeRole p => exact withOpenTenure_tuples _ _ _
  | removeMember p => exact withOpenTenure_tuples _ _ _
  | revokeDevice p => exact withOpenTenure_tuples _ _ _
  | addDevice p =>
    simp only [recordHistory, recordDeviceAddedOf]
    split
    · rfl
    · exact withOpenTenure_tuples _ _ _
  | rotateEpoch p =>
    simp only [recordHistory, ChainHistoryBuilder.recordEpochRotated]
    split <;> rfl
  | checkpoint p => exact absurd rfl (h p)
  | _ => rfl

/-! ## A run -/

/-- The register after the entries before position `n`: what they issued, in order. -/
structure Tracked (crypto : Crypto) (entries : List Json) (e : EnvironmentId) (v n : Nat) (history : ChainHistoryBuilder)
    (puts : List (Nat × Nat × JsString)) : Prop where
  register : registerOf (recordAt history e v) = Register.ofList puts
  mem : ∀ x, x ∈ puts ↔ ∃ k tuple, k < n ∧ Issued crypto entries e v k tuple ∧
    x = (k + 1, tuple.epoch, tuple.manifestSigHashHex)
  sorted : puts.Pairwise fun x y => x.1 ≤ y.1

theorem tracked_step {crypto : Crypto} {entries : List Json} {e : EnvironmentId} {v n : Nat} {history : ChainHistoryBuilder}
    {puts : List (Nat × Nat × JsString)} (h : Tracked crypto entries e v n history puts) {s s' : MutableChainState}
    {entry : ChainEntry} {hash : JsString} {applied : Option AppliedOperation}
    (hat : EntryAt crypto entries n s entry hash s' applied) :
    ∃ puts', Tracked crypto entries e v (n + 1) ((historyAfter history applied (n + 1) s').recordEntryHash hash) puts' := by
  have hat' : ∀ {k tuple}, Issued crypto entries e v k tuple → k = n → ∃ p a, applied = some a ∧
      a.operation = .checkpoint p ∧ tuple ∈ p.environments := by
    rintro k tuple hissued rfl
    obtain ⟨t, entry', hash', t', a, p, hat', hop, htuple⟩ := hissued.issued
    obtain ⟨-, -, -, -, rfl⟩ := entryAt_unique hat hat'
    exact ⟨p, a, rfl, hop, htuple⟩
  by_cases hcheckpoint : ∃ a p, applied = some a ∧ a.operation = .checkpoint p
  · obtain ⟨a, p, rfl, hop⟩ := hcheckpoint
    refine ⟨puts ++ putsOf e v (n + 1) p.environments, ?_, fun x => ?_, ?_⟩
    · have hrecord : historyAfter history (some a) (n + 1) s' = history.recordCheckpoint (n + 1) p.environments := by
        simp only [historyAfter, recordHistory, hop]
      rw [hrecord, Register.ofList, List.foldl_append, ← Register.ofList, ← h.register]
      exact recordAt_recordCheckpoint _ _ _ _ _
    · rw [List.mem_append, h.mem]
      unfold putsOf
      simp only [List.mem_map, List.mem_filter, decide_eq_true_eq]
      constructor
      · rintro (⟨k, tuple, hk, hissued, rfl⟩ | ⟨tuple, ⟨htuple, henvironment, hversion⟩, rfl⟩)
        · exact ⟨k, tuple, by omega, hissued, rfl⟩
        · exact ⟨n, tuple, by omega, ⟨⟨s, entry, hash, s', a, p, hat, hop, htuple⟩, henvironment, hversion⟩, rfl⟩
      · rintro ⟨k, tuple, hk, hissued, rfl⟩
        rcases Nat.lt_succ_iff_lt_or_eq.mp hk with hlt | heq
        · exact .inl ⟨k, tuple, hlt, hissued, rfl⟩
        · obtain ⟨p', a', ha, hop', htuple⟩ := hat' hissued heq
          cases ha
          rw [hop] at hop'
          cases hop'
          rw [heq]
          exact .inr ⟨tuple, ⟨htuple, hissued.environment, hissued.version⟩, rfl⟩
    · refine List.pairwise_append.mpr ⟨h.sorted, ?_, ?_⟩
      · refine List.pairwise_of_forall_mem_list fun x hx y hy => ?_
        obtain ⟨tuple, -, rfl⟩ := List.mem_map.mp hx
        obtain ⟨tuple', -, rfl⟩ := List.mem_map.mp hy
        exact le_refl _
      · intro x hx y hy
        obtain ⟨k, tuple, hk, -, rfl⟩ := (h.mem x).mp hx
        obtain ⟨tuple', -, rfl⟩ := List.mem_map.mp hy
        exact Nat.succ_le_succ (Nat.le_of_lt hk)
  · refine ⟨puts, ?_, fun x => ?_, h.sorted⟩
    · rw [← h.register]
      have hsame : (historyAfter history applied (n + 1) s').checkpointTuples = history.checkpointTuples := by
        cases applied with
        | none => rfl
        | some a => exact recordHistory_tuples history (n + 1) s' fun p hop => hcheckpoint ⟨a, p, rfl, hop⟩
      unfold recordAt ChainHistoryBuilder.recordEntryHash
      rw [hsame]
    · rw [h.mem]
      constructor
      · rintro ⟨k, tuple, hk, hissued, rfl⟩
        exact ⟨k, tuple, by omega, hissued, rfl⟩
      · rintro ⟨k, tuple, hk, hissued, rfl⟩
        rcases Nat.lt_succ_iff_lt_or_eq.mp hk with hlt | heq
        · exact ⟨k, tuple, hlt, hissued, rfl⟩
        · obtain ⟨p, a, ha, hop, -⟩ := hat' hissued heq
          exact absurd ⟨a, p, ha, hop⟩ hcheckpoint

theorem tracked_of_runs {crypto : Crypto} {entries : List Json} {loop : LoopState}
    (hrun : Runs crypto (some .new) entries loop) (e : EnvironmentId) (v : Nat) :
    ∃ history puts, loop.history = some history ∧ Tracked crypto entries e v entries.length history puts := by
  refine reaches_induction hrun (P := fun pre loop => ∃ history puts, loop.history = some history ∧
    Tracked crypto entries e v pre.length history puts)
    ⟨.new, [], rfl, rfl, fun x => ?_, List.Pairwise.nil⟩ ?_
  · exact iff_of_false List.not_mem_nil fun ⟨k, tuple, hk, _⟩ => Nat.not_lt_zero k hk
  rintro pre j mid mid' hpre hreach ⟨history, puts, hhistory, htracked⟩ hstep
  obtain ⟨entry, hash, applied, hacc⟩ := verifyEntry_ok hstep
  obtain ⟨puts', htracked'⟩ := tracked_step htracked (entryAt_of_step hpre hreach hstep hacc)
  refine ⟨_, puts', ?_, by rw [List.length_append]; exact htracked'⟩
  rw [hacc.history_eq, hhistory, runs_seq hreach]
  rfl

/-! ## The lookup -/

section Lookup
variable {crypto : Crypto} {entries : List Json} {st : ChainState} {index : ChainHistoryIndex}

theorem lookup_register (h : verifyChainWithHistory crypto entries = .ok (st, index)) (e : EnvironmentId) (v : Nat) :
    ∃ puts : List (Nat × Nat × JsString),
      (∀ x, x ∈ puts ↔ ∃ k tuple, Issued crypto entries e v k tuple ∧ x = (k + 1, tuple.epoch, tuple.manifestSigHashHex)) ∧
      puts.Pairwise (fun x y => x.1 ≤ y.1) ∧
      index.checkpointTupleFor e v = match Register.ofList puts with
        | .empty => none
        | .held seq value => some (.unique seq value.1 value.2)
        | .conflict => some .conflicting := by
  obtain ⟨-, loop, hrun, -, rfl⟩ := verifyChainWithHistory_ok.mp h
  obtain ⟨history, puts, hhistory, htracked⟩ := tracked_of_runs hrun e v
  have hmem : ∀ x, x ∈ puts ↔ ∃ k tuple, Issued crypto entries e v k tuple ∧
      x = (k + 1, tuple.epoch, tuple.manifestSigHashHex) := by
    intro x
    rw [htracked.mem]
    constructor
    · rintro ⟨k, tuple, -, hissued, hx⟩
      exact ⟨k, tuple, hissued, hx⟩
    · rintro ⟨k, tuple, hissued, hx⟩
      obtain ⟨s, entry, hash, s', applied, p, hat, -, -⟩ := hissued.issued
      exact ⟨k, tuple, hat.lt_length, hissued, hx⟩
  refine ⟨puts, hmem, htracked.sorted, ?_⟩
  have hregister := htracked.register
  rw [hhistory, Option.getD_some]
  unfold ChainHistoryIndex.checkpointTupleFor ChainHistoryBuilder.build
  dsimp only
  by_cases hrange : (v ≤ Json.maxSafeInteger && 1 ≤ v) = true
  · rw [← hregister]
    unfold recordAt
    simp only [hrange, guard_true, pure_bind]
    cases hperEnv : history.checkpointTuples.get? e with
    | none => rfl
    | some perEnv =>
      rw [Option.bind_some]
      cases hrecord : perEnv.get? v with
      | none => simp [hrecord, registerOf]
      | some record => cases record <;> simp [hrecord, registerOf]
  · have hnone : puts = [] := by
      rw [List.eq_nil_iff_forall_not_mem]
      intro x hx
      obtain ⟨k, tuple, hissued, -⟩ := (hmem x).mp hx
      obtain ⟨s, entry, hash, s', applied, p, hat, hop, htuple⟩ := hissued.issued
      refine hrange ?_
      have hout := hat.outcome
      cases hout with
      | genesis p' hop' => cases hop
      | applies op u fp m d pending hmem auth happlied =>
        cases hop
        have hversion := ((operationsIn_shaped _ hmem).1 tuple htuple).version
        rw [hissued.version] at hversion
        simp only [Bool.and_eq_true, decide_eq_true_eq]
        exact hversion.symm
    rw [hnone]
    simp only [hrange, Register.ofList, List.foldl_nil]
    rfl

end Lookup

/-- **The lookup is exact.** Nothing, the first of equal tuples, or a conflict, as the checkpoint entries have it. -/
theorem checkpointTupleFor_exact {crypto : Crypto} {entries : List Json} {st : ChainState} {index : ChainHistoryIndex}
    (h : verifyChainWithHistory crypto entries = .ok (st, index)) (e : EnvironmentId) (v : Nat) :
    (index.checkpointTupleFor e v = none ↔ ∀ n tuple, ¬ Issued crypto entries e v n tuple) ∧
    (∀ seq epoch manifestSigHashHex, index.checkpointTupleFor e v = some (.unique seq epoch manifestSigHashHex) ↔
      ∃ n tuple, Issued crypto entries e v n tuple ∧ seq = n + 1 ∧ epoch = tuple.epoch ∧
        manifestSigHashHex = tuple.manifestSigHashHex ∧
        ∀ n' tuple', Issued crypto entries e v n' tuple' →
          n ≤ n' ∧ tuple'.epoch = tuple.epoch ∧ tuple'.manifestSigHashHex = tuple.manifestSigHashHex) ∧
    (index.checkpointTupleFor e v = some .conflicting ↔
      ∃ n tuple n' tuple', Issued crypto entries e v n tuple ∧ Issued crypto entries e v n' tuple' ∧
        (tuple.epoch ≠ tuple'.epoch ∨ tuple.manifestSigHashHex ≠ tuple'.manifestSigHashHex)) := by
  obtain ⟨puts, hmem, hsorted, hlookup⟩ := lookup_register h e v
  rw [hlookup]
  have hissued : ∀ {n tuple}, Issued crypto entries e v n tuple → (n + 1, tuple.epoch, tuple.manifestSigHashHex) ∈ puts :=
    fun {n tuple} hi => (hmem _).mpr ⟨n, tuple, hi, rfl⟩
  refine ⟨?_, fun seq epoch manifestSigHashHex => ?_, ?_⟩
  · have hempty : (∀ n tuple, ¬ Issued crypto entries e v n tuple) ↔ Register.ofList puts = .empty := by
      rw [Register.ofList_eq_empty, List.eq_nil_iff_forall_not_mem]
      constructor
      · intro hnone x hx
        obtain ⟨n, tuple, hi, -⟩ := (hmem x).mp hx
        exact hnone n tuple hi
      · exact fun hnone n tuple hi => hnone _ (hissued hi)
    rw [hempty]
    cases Register.ofList puts <;> simp
  · have hheld : (∃ n tuple, Issued crypto entries e v n tuple ∧ seq = n + 1 ∧ epoch = tuple.epoch ∧
        manifestSigHashHex = tuple.manifestSigHashHex ∧ ∀ n' tuple', Issued crypto entries e v n' tuple' →
          n ≤ n' ∧ tuple'.epoch = tuple.epoch ∧ tuple'.manifestSigHashHex = tuple.manifestSigHashHex) ↔
        Register.ofList puts = .held seq (epoch, manifestSigHashHex) := by
      rw [Register.ofList_eq_held]
      constructor
      · rintro ⟨n, tuple, hi, rfl, rfl, rfl, hall⟩
        cases hputs : puts with
        | nil => rw [hputs] at hissued; exact absurd (hissued hi) List.not_mem_nil
        | cons x rest =>
          rw [hputs] at hmem hsorted hissued
          obtain ⟨k, tuple', hi', hx⟩ := (hmem x).mp List.mem_cons_self
          obtain ⟨hle, hepoch, hhash⟩ := hall k tuple' hi'
          have hge : x.1 ≤ n + 1 := by
            rcases List.mem_cons.mp (hissued hi) with heq | hrest
            · rw [← heq]
            · exact (List.pairwise_cons.mp hsorted).1 _ hrest
          rw [hx] at hge
          have hk : k = n := Nat.le_antisymm (Nat.le_of_succ_le_succ hge) hle
          refine ⟨rest, ?_, fun y hy => ?_⟩
          · rw [hx, hk, hepoch, hhash]
          · obtain ⟨k', t, hi'', rfl⟩ := (hmem y).mp (List.mem_cons_of_mem _ hy)
            obtain ⟨-, hepoch', hhash'⟩ := hall k' t hi''
            exact Prod.ext hepoch' hhash'
      · rintro ⟨rest, hputs, hall⟩
        obtain ⟨n, tuple, hi, hx⟩ := (hmem _).mp (by rw [hputs]; exact List.mem_cons_self)
        simp only [Prod.mk.injEq] at hx
        obtain ⟨rfl, rfl, rfl⟩ := hx
        refine ⟨n, tuple, hi, rfl, rfl, rfl, fun n' tuple' hi' => ?_⟩
        have hin := hissued hi'
        rw [hputs] at hin hsorted
        rcases List.mem_cons.mp hin with heq | hrest
        · simp only [Prod.mk.injEq] at heq
          exact ⟨by omega, heq.2.1, heq.2.2⟩
        · have hle : n + 1 ≤ n' + 1 := (List.pairwise_cons.mp hsorted).1 _ hrest
          obtain ⟨hepoch, hhash⟩ := Prod.mk.inj (hall _ hrest)
          exact ⟨by omega, hepoch, hhash⟩
    rw [hheld]
    cases Register.ofList puts <;> simp [Prod.ext_iff]
  · have hconflict : (∃ n tuple n' tuple', Issued crypto entries e v n tuple ∧ Issued crypto entries e v n' tuple' ∧
        (tuple.epoch ≠ tuple'.epoch ∨ tuple.manifestSigHashHex ≠ tuple'.manifestSigHashHex)) ↔
        Register.ofList puts = .conflict := by
      rw [Register.ofList_eq_conflict]
      constructor
      · rintro ⟨n, tuple, n', tuple', hi, hi', hne⟩
        refine ⟨_, hissued hi, _, hissued hi', fun heq => ?_⟩
        obtain ⟨hepoch, hhash⟩ := Prod.mk.inj heq
        exact hne.elim (fun h => h hepoch) fun h => h hhash
      · rintro ⟨x, hx, y, hy, hne⟩
        obtain ⟨n, tuple, hi, rfl⟩ := (hmem x).mp hx
        obtain ⟨n', tuple', hi', rfl⟩ := (hmem y).mp hy
        refine ⟨n, tuple, n', tuple', hi, hi', ?_⟩
        by_contra hsame
        rw [not_or, not_not, not_not] at hsame
        exact hne (Prod.ext hsame.1 hsame.2)
    rw [hconflict]
    cases Register.ofList puts <;> simp

theorem issued_notarized {v n : Nat} {tuple : CheckpointEnvironmentEntry}
    (h : Issued notaryCrypto notarizedChain (Text.lit "prod") v n tuple) :
    (n = 2 ∨ n = 3) ∧ tuple = notarizedTuple 1 98 ∨ n = 4 ∧ tuple = notarizedTuple 2 99 ∨
      n = 5 ∧ tuple = notarizedTuple 2 100 := by
  obtain ⟨p, hget, hmem⟩ := notarized_iff.mp h.issued
  match n, hget with
  | 2, rfl => exact Or.inl ⟨Or.inl rfl, List.mem_singleton.mp hmem⟩
  | 3, rfl => exact Or.inl ⟨Or.inr rfl, List.mem_singleton.mp hmem⟩
  | 4, rfl => exact Or.inr (Or.inl ⟨rfl, List.mem_singleton.mp hmem⟩)
  | 5, rfl => exact Or.inr (Or.inr ⟨rfl, List.mem_singleton.mp hmem⟩)

/-- Of the version that was checkpointed twice alike the first entry is found, of the other that the two conflict. -/
theorem checkpointTupleFor_notarized : ∃ st index, verifyChainWithHistory notaryCrypto notarizedChain = .ok (st, index) ∧
    index.checkpointTupleFor (Text.lit "prod") 1 = some (.unique 3 1 (List.replicate 64 98)) ∧
    index.checkpointTupleFor (Text.lit "prod") 2 = some .conflicting ∧
    index.checkpointTupleFor (Text.lit "prod") 3 = none := by
  obtain ⟨st, index, hchain⟩ := notarizedChain_accepted
  have hexact := checkpointTupleFor_exact hchain (Text.lit "prod")
  refine ⟨st, index, hchain, ?_, ?_, ?_⟩
  · refine ((hexact 1).2.1 3 1 (List.replicate 64 98)).mpr ⟨2, notarizedTuple 1 98,
      ⟨notarized_iff.mpr ⟨_, rfl, List.mem_singleton_self _⟩, rfl, rfl⟩, rfl, rfl, rfl, fun n' tuple' h' => ?_⟩
    have hversion := h'.version
    rcases issued_notarized h' with ⟨hn, rfl⟩ | ⟨rfl, rfl⟩ | ⟨rfl, rfl⟩
    · exact ⟨by omega, rfl, rfl⟩
    · exact absurd hversion (by decide)
    · exact absurd hversion (by decide)
  · exact (hexact 2).2.2.mpr ⟨4, notarizedTuple 2 99, 5, notarizedTuple 2 100,
      ⟨notarized_iff.mpr ⟨_, rfl, List.mem_singleton_self _⟩, rfl, rfl⟩,
      ⟨notarized_iff.mpr ⟨_, rfl, List.mem_singleton_self _⟩, rfl, rfl⟩, Or.inr (by decide)⟩
  · refine (hexact 3).1.mpr fun n tuple h => ?_
    have hversion := h.version
    rcases issued_notarized h with ⟨-, rfl⟩ | ⟨-, rfl⟩ | ⟨-, rfl⟩ <;> exact absurd hversion (by decide)

end Maruhi.Checkpoint
