import Maruhi.Proposals.Recipients

/-!
# The life of a proposal

Every `proposed` row of a proposal gets one closing row before the next, and the proposal is stored just in between.
-/

open Text

namespace Maruhi.Proposals
open Chain Checkpoint

/-! ## Runs -/

/-- `next` is the chain with the deletion's entry, none where the entry is refused. `chain` stands for every other
entry. -/
inductive ProjectEvent (crypto : Crypto)
  | mint (nowMs : Nat) (environmentId : EnvironmentId) (judgment : WorkloadJudgment) (claimsDigestHex : JsString)
      (proposal : RotationProposalInput)
  | preflight (nowMs : Nat) (environmentId : EnvironmentId) (judgment : WorkloadJudgment)
      (named : List (VariableId × Nat)) (recipients : List (UserId × JsString))
  | list (nowMs : Nat) (userId : UserId)
  | resolve (nowMs : Nat) (userId : UserId) (proposalId : ProposalId) (resolution : ProposalResolution)
  | deleteEnvironment (nowMs : Nat) (environmentId : EnvironmentId) (userId : UserId) (fingerprint : KeyFingerprintHex)
      (next : Option (VerifiedChain crypto))
  | writeVariables (nowMs : Nat) (writes : List VariableWrite) (events : List JsString)
  | chain (nowMs : Nat) (next : VerifiedChain crypto) (events : List JsString)

variable {crypto : Crypto}

def otherRow (nowMs : Nat) (event : JsString) : LogRow := ⟨.other event, nowMs, none, none, none⟩

def ProjectState.step (s : ProjectState crypto) : ProjectEvent crypto → ProjectState crypto
  | .mint nowMs environmentId judgment claimsDigestHex proposal =>
    (proposeRotationProgram s nowMs environmentId judgment claimsDigestHex proposal).1
  | .preflight nowMs environmentId judgment named recipients =>
    (preflightRotationProgram s nowMs environmentId judgment named recipients).1
  | .list nowMs userId => (listRotationProposalsProgram s nowMs userId).1
  | .resolve nowMs userId proposalId resolution =>
    (runWrite s userId (resolveRotationProposalProgram nowMs userId proposalId resolution)).1
  | .deleteEnvironment nowMs environmentId userId fingerprint next =>
    match next with
    | none => s
    | some next => if s.mirror then s else deleteEnvironmentWrites nowMs environmentId userId fingerprint next s
  | .writeVariables nowMs writes events =>
    { s with data := writes.foldl (DataTables.write nowMs) s.data }.append (events.map (otherRow nowMs))
  | .chain nowMs next events => { s with chain := next }.append (events.map (otherRow nowMs))

def ProjectState.run (s : ProjectState crypto) (events : List (ProjectEvent crypto)) : ProjectState crypto :=
  events.foldl ProjectState.step s

/-- Every step of a run, with the state before it. -/
def transitions (s : ProjectState crypto) : List (ProjectEvent crypto) → List (ProjectState crypto × ProjectEvent crypto)
  | [] => []
  | event :: rest => (s, event) :: transitions (s.step event) rest

attribute [grind =] transitions

def ProjectState.start (chain : VerifiedChain crypto) (mirror : Bool) : ProjectState crypto where
  chain := chain
  mirror := mirror
  data := ⟨[], [], []⟩
  proposals := ⟨[], [], []⟩
  window := none
  log := []

/-! ## What holds -/

/-- The rows of one proposal id. -/
def eventsOf (proposalId : ProposalId) (log : List LogRow) : List RotationEvent :=
  log.filterMap fun row => match row.event with
    | .rotation event => if event.proposalId = proposalId then some event else none
    | .other _ => none

/-- Opening and closing rows in turn, and whether the last one opens. -/
inductive Alternates : List RotationEvent → Bool → Prop
  | nil : Alternates [] false
  | opened {events : List RotationEvent} {event : RotationEvent} (h : Alternates events false)
      (hevent : event.opens = true) : Alternates (events ++ [event]) true
  | closed {events : List RotationEvent} {event : RotationEvent} (h : Alternates events true)
      (hevent : event.opens = false) : Alternates (events ++ [event]) false

def ProposalTables.ids (tables : ProposalTables) : List ProposalId := tables.proposals.map fun row => row.proposalId

/-- Whether two stored proposals name one variable of one environment. -/
def NamesSame (tables : ProposalTables) (a b : ProposalRow) : Prop :=
  a.environmentId = b.environmentId ∧ ∃ named ∈ tables.variableRows, ∃ other ∈ tables.variableRows,
    named.proposalId = a.proposalId ∧ other.proposalId = b.proposalId ∧ named.variableId = other.variableId

structure Sound (tables : ProposalTables) (log : List LogRow) : Prop where
  keys : tables.ids.Nodup
  named : ∀ row ∈ tables.variableRows, row.proposalId ∈ tables.ids
  nonempty : [] ∉ tables.ids
  apart : ∀ a ∈ tables.proposals, ∀ b ∈ tables.proposals, NamesSame tables a b → a.proposalId = b.proposalId
  life : ∀ id, ∃ isOpen, Alternates (eventsOf id log) isOpen ∧ (isOpen = true ↔ id ∈ tables.ids)

theorem eventsOf_append (id : ProposalId) (log rows : List LogRow) :
    eventsOf id (log ++ rows) = eventsOf id log ++ eventsOf id rows := List.filterMap_append

theorem eventsOf_other {rows : List LogRow} (h : ∀ row ∈ rows, ∃ event, row.event = .other event) (id : ProposalId) :
    eventsOf id rows = [] := by
  unfold eventsOf
  rw [List.filterMap_eq_nil_iff]
  intro row hrow
  obtain ⟨event, hevent⟩ := h row hrow
  rw [hevent]

theorem sound_empty : Sound ⟨[], [], []⟩ [] where
  keys := List.nodup_nil
  named := by simp
  nonempty := List.not_mem_nil
  apart := by simp
  life := fun _ => ⟨false, .nil, by simp [ProposalTables.ids]⟩

section
variable {tables : ProposalTables} {log : List LogRow}

theorem Sound.others (h : Sound tables log) {rows : List LogRow}
    (hrows : ∀ row ∈ rows, ∃ event, row.event = .other event) : Sound tables (log ++ rows) := by
  refine { h with life := fun id => ?_ }
  rw [eventsOf_append, eventsOf_other hrows, List.append_nil]
  exact h.life id

/-! ## Closing -/

def withoutProposals (tables : ProposalTables) (ids : List ProposalId) : ProposalTables where
  proposals := tables.proposals.filter fun row => row.proposalId ∉ ids
  variableRows := tables.variableRows.filter fun row => row.proposalId ∉ ids
  wraps := tables.wraps.filter fun row => row.proposalId ∉ ids

theorem mem_ids_without {ids : List ProposalId} {id : ProposalId} :
    id ∈ (withoutProposals tables ids).ids ↔ id ∈ tables.ids ∧ id ∉ ids := by
  simp only [ProposalTables.ids, withoutProposals, List.mem_map, List.mem_filter, decide_eq_true_eq]
  constructor
  · rintro ⟨row, ⟨hrow, hout⟩, rfl⟩
    exact ⟨⟨row, hrow, rfl⟩, hout⟩
  · rintro ⟨⟨row, hrow, rfl⟩, hout⟩
    exact ⟨row, ⟨hrow, hout⟩, rfl⟩

theorem Sound.close (h : Sound tables log) {ids : List ProposalId} {rows : List LogRow}
    (hstored : ∀ id ∈ ids, id ∈ tables.ids)
    (hclosed : ∀ id ∈ ids, ∃ event, eventsOf id rows = [event] ∧ event.opens = false)
    (hothers : ∀ id, id ∉ ids → eventsOf id rows = []) : Sound (withoutProposals tables ids) (log ++ rows) where
  keys := h.keys.sublist (List.filter_sublist.map _)
  named := by
    intro row hrow
    obtain ⟨hrow, hout⟩ := List.mem_filter.mp hrow
    exact mem_ids_without.mpr ⟨h.named row hrow, of_decide_eq_true hout⟩
  nonempty := fun hnil => h.nonempty (mem_ids_without.mp hnil).1
  apart := by
    rintro a ha b hb ⟨henv, named, hnamed, other, hother, hsame⟩
    exact h.apart a (List.mem_of_mem_filter ha) b (List.mem_of_mem_filter hb)
      ⟨henv, named, List.mem_of_mem_filter hnamed, other, List.mem_of_mem_filter hother, hsame⟩
  life := by
    intro id
    obtain ⟨isOpen, halternates, hiff⟩ := h.life id
    rw [eventsOf_append]
    by_cases hid : id ∈ ids
    · obtain ⟨event, hevent, hcloses⟩ := hclosed id hid
      rw [hiff.mpr (hstored id hid)] at halternates
      refine ⟨false, ?_, ?_⟩
      · rw [hevent]
        exact .closed halternates hcloses
      · simp [mem_ids_without, hid]
    · refine ⟨isOpen, ?_, ?_⟩
      · rw [hothers id hid, List.append_nil]
        exact halternates
      · simp [mem_ids_without, hid, hiff]

/-- A row that closes its proposal. -/
def Closes (close : RemovedProposal → LogRow) : Prop :=
  ∀ removed, ∃ event, (close removed).event = .rotation event ∧ event.proposalId = removed.proposalId ∧
    event.opens = false

theorem eventsOf_closing {close : RemovedProposal → LogRow} (hclose : Closes close) {removed : List RemovedProposal}
    (hnodup : (removed.map (·.proposalId)).Nodup) (id : ProposalId) :
    (id ∈ removed.map (·.proposalId) → ∃ event, eventsOf id (removed.map close) = [event] ∧ event.opens = false) ∧
      (id ∉ removed.map (·.proposalId) → eventsOf id (removed.map close) = []) := by
  induction removed with
  | nil => simp [eventsOf]
  | cons row rest ih =>
    rw [List.map_cons, List.nodup_cons] at hnodup
    obtain ⟨hclosed, hothers⟩ := ih hnodup.2
    obtain ⟨event, hevent, hid, hcloses⟩ := hclose row
    have hcons : eventsOf id ((row :: rest).map close) =
        (if event.proposalId = id then [event] else []) ++ eventsOf id (rest.map close) := by
      unfold eventsOf
      rw [List.map_cons, List.filterMap_cons, hevent]
      dsimp only
      by_cases heq : event.proposalId = id <;> simp [heq]
    rw [hcons, List.map_cons, List.mem_cons]
    by_cases heq : event.proposalId = id
    · have hrow : row.proposalId = id := hid.symm.trans heq
      rw [if_pos heq]
      refine ⟨fun _ => ⟨event, ?_, hcloses⟩, fun hout => absurd (Or.inl hrow.symm) hout⟩
      rw [hothers (hrow ▸ hnodup.1), List.append_nil]
    · rw [if_neg heq, List.nil_append]
      have hne : id ≠ row.proposalId := fun h => heq (hid.trans h.symm)
      exact ⟨fun hmem => hclosed (hmem.resolve_left hne), fun hout => hothers fun hmem => hout (Or.inr hmem)⟩

theorem removed_nodup (h : Sound tables log) (selected : ProposalRow → Bool) :
    ((deleteProposalsWhere tables selected).2.map (·.proposalId)).Nodup := by
  unfold deleteProposalsWhere removedProposalsOf
  dsimp only
  rw [List.map_map]
  have hperm := (List.perm_insertionSort expiresBefore (tables.proposals.filter selected)).map
    fun row : ProposalRow => row.proposalId
  exact hperm.nodup_iff.mpr (h.keys.sublist (List.filter_sublist.map _))

theorem deleteProposalsWhere_tables (selected : ProposalRow → Bool) :
    (deleteProposalsWhere tables selected).1 =
      withoutProposals tables ((deleteProposalsWhere tables selected).2.map (·.proposalId)) :=
  foldl_deleteProposalRows _ _

theorem Sound.closeWhere (h : Sound tables log) (selected : ProposalRow → Bool) {close : RemovedProposal → LogRow}
    (hclose : Closes close) : Sound (deleteProposalsWhere tables selected).1
      (log ++ (deleteProposalsWhere tables selected).2.map close) := by
  have hclosing := eventsOf_closing hclose (removed_nodup h selected)
  rw [deleteProposalsWhere_tables]
  refine h.close (fun id hid => ?_) (fun id hid => (hclosing id).1 hid) fun id hid => (hclosing id).2 hid
  obtain ⟨removed, hremoved, rfl⟩ := List.mem_map.mp hid
  obtain ⟨row, hrow, -, rfl⟩ := mem_removed.mp hremoved
  exact List.mem_map_of_mem hrow

theorem Sound.closeOne (h : Sound tables log) {id : ProposalId} (hid : id ∈ tables.ids) {row : LogRow}
    {event : RotationEvent} (hrow : row.event = .rotation event) (hevent : event.proposalId = id)
    (hcloses : event.opens = false) : Sound (deleteProposalRows tables id) (log ++ [row]) := by
  have hwithout : deleteProposalRows tables id = withoutProposals tables [id] := by
    simp [deleteProposalRows, withoutProposals]
  have hevents : ∀ other, eventsOf other [row] = if event.proposalId = other then [event] else [] := by
    intro other
    unfold eventsOf
    rw [List.filterMap_cons, hrow]
    by_cases heq : event.proposalId = other <;> simp [heq]
  rw [hwithout]
  refine h.close (fun other hother => ?_) (fun other hother => ⟨event, ?_, hcloses⟩) fun other hother => ?_
  · rw [List.mem_singleton.mp hother]
    exact hid
  · rw [hevents, List.mem_singleton.mp hother, if_pos hevent]
  · rw [hevents, if_neg fun heq => hother (List.mem_singleton.mpr (heq.symm.trans hevent))]

/-! ## Opening -/

theorem Sound.insert (h : Sound tables log) {proposal : NewProposal} {nowMs : Nat} (hid : proposal.proposalId ∉ tables.ids)
    (hne : proposal.proposalId ≠ []) (hpending : ∀ row ∈ tables.proposals, nowMs < row.expiresAtMs)
    (hfree : ∀ input ∈ proposal.variableInputs,
      variableHasPendingProposal tables proposal.environmentId input.variableId nowMs = false)
    {row : LogRow} {event : RotationEvent} (hrow : row.event = .rotation event)
    (hevent : event.proposalId = proposal.proposalId) (hopens : event.opens = true) :
    Sound (insertProposal tables proposal nowMs) (log ++ [row]) := by
  have hids : (insertProposal tables proposal nowMs).ids = tables.ids ++ [proposal.proposalId] := by
    simp [ProposalTables.ids, insertProposal]
  have hnew : ∀ named, named ∈ (insertProposal tables proposal nowMs).variableRows → named ∉ tables.variableRows →
      named.proposalId = proposal.proposalId ∧ ∃ input ∈ proposal.variableInputs, input.variableId = named.variableId := by
    intro named hnamed hold
    rcases List.mem_append.mp hnamed with hnamed | hnamed
    · exact absurd hnamed hold
    · obtain ⟨i, hi, rfl⟩ := List.mem_mapIdx.mp hnamed
      exact ⟨rfl, _, List.getElem_mem hi, rfl⟩
  have holdRow : ∀ named ∈ (insertProposal tables proposal nowMs).variableRows,
      named.proposalId ≠ proposal.proposalId → named ∈ tables.variableRows := by
    intro named hnamed hother
    by_contra hold
    exact hother (hnew named hnamed hold).1
  have hnewRow : ∀ named ∈ (insertProposal tables proposal nowMs).variableRows,
      named.proposalId = proposal.proposalId → ∃ input ∈ proposal.variableInputs, input.variableId = named.variableId := by
    intro named hnamed hsame
    exact (hnew named hnamed fun hold => hid (hsame ▸ h.named named hold)).2
  -- a stored proposal and the new one share no variable: the stored one is pending
  have hclash : ∀ a ∈ tables.proposals, a.environmentId = proposal.environmentId →
      ∀ named ∈ tables.variableRows, named.proposalId = a.proposalId →
      ∀ input ∈ proposal.variableInputs, input.variableId ≠ named.variableId := by
    intro a ha henv named hnamed hof input hinput hsame
    have hfree := hfree input hinput
    unfold variableHasPendingProposal at hfree
    rw [List.any_eq_false] at hfree
    apply hfree a ha
    rw [List.any_eq_true]
    refine ⟨named, hnamed, ?_⟩
    simp [hof, henv, hsame, hpending a ha]
  refine ⟨?_, ?_, ?_, ?_, ?_⟩
  · rw [hids, List.nodup_append]
    exact ⟨h.keys, List.nodup_singleton _, fun a ha b hb hab => hid ((hab.trans (List.mem_singleton.mp hb)) ▸ ha)⟩
  · intro named hnamed
    rw [hids, List.mem_append]
    by_cases hsame : named.proposalId = proposal.proposalId
    · exact Or.inr (List.mem_singleton.mpr hsame)
    · exact Or.inl (h.named named (holdRow named hnamed hsame))
  · rw [hids, List.mem_append, List.mem_singleton, not_or]
    exact ⟨h.nonempty, fun heq => hne heq.symm⟩
  · rintro a ha b hb ⟨henv, named, hnamed, other, hother, hofA, hofB, hsame⟩
    rcases List.mem_append.mp ha with ha | ha <;> rcases List.mem_append.mp hb with hb | hb
    · have hneA : named.proposalId ≠ proposal.proposalId := fun heq => hid (heq ▸ hofA ▸ List.mem_map_of_mem ha)
      have hneB : other.proposalId ≠ proposal.proposalId := fun heq => hid (heq ▸ hofB ▸ List.mem_map_of_mem hb)
      exact h.apart a ha b hb
        ⟨henv, named, holdRow named hnamed hneA, other, holdRow other hother hneB, hofA, hofB, hsame⟩
    · rw [List.mem_singleton.mp hb] at henv hofB ⊢
      have hneA : named.proposalId ≠ proposal.proposalId := fun heq => hid (heq ▸ hofA ▸ List.mem_map_of_mem ha)
      obtain ⟨input, hinput, hvariable⟩ := hnewRow other hother hofB
      exact absurd (hvariable.trans hsame.symm) (hclash a ha henv named (holdRow named hnamed hneA) hofA input hinput)
    · rw [List.mem_singleton.mp ha] at henv hofA ⊢
      have hneB : other.proposalId ≠ proposal.proposalId := fun heq => hid (heq ▸ hofB ▸ List.mem_map_of_mem hb)
      obtain ⟨input, hinput, hvariable⟩ := hnewRow named hnamed hofA
      exact absurd (hvariable.trans hsame) (hclash b hb henv.symm other (holdRow other hother hneB) hofB input hinput)
    · rw [List.mem_singleton.mp ha, List.mem_singleton.mp hb]
  · intro id
    obtain ⟨isOpen, halternates, hiff⟩ := h.life id
    have hevents : eventsOf id [row] = if event.proposalId = id then [event] else [] := by
      unfold eventsOf
      rw [List.filterMap_cons, hrow]
      by_cases heq : event.proposalId = id <;> simp [heq]
    rw [eventsOf_append, hevents, hids, List.mem_append, List.mem_singleton]
    by_cases heq : event.proposalId = id
    · have hsame : id = proposal.proposalId := heq.symm.trans hevent
      have hclosed : isOpen = false := by
        rw [Bool.eq_false_iff]
        intro hopen
        exact hid (hsame ▸ hiff.mp hopen)
      rw [if_pos heq]
      rw [hclosed] at halternates
      exact ⟨true, .opened halternates hopens, by simp [hsame]⟩
    · have hother : id ≠ proposal.proposalId := fun hsame => heq (hevent.trans hsame.symm)
      rw [if_neg heq, List.append_nil]
      exact ⟨isOpen, halternates, by simp [hiff, hother]⟩

end

end Maruhi.Proposals
