import Maruhi.Checkpoint.Integrity
import Maruhi.Proposals.LifeCycle

/-!
# Proposals over a run

What every row says was so when it was written. An acceptance is judged by the variables of its proposal, and what
else the caller names goes into its row unjudged.
-/

open Text

namespace Maruhi.Proposals
open Chain Checkpoint

variable {crypto : Crypto}

/-! ## What a row says -/

/-- A mint's variables are live at their base versions, and their wraps are W(E). -/
structure Minted (s : ProjectState crypto) (environmentId : EnvironmentId) (proposal : RotationProposalInput) : Prop where
  live : ∀ input ∈ proposal.variableInputs, ∃ stored, findVariable s.data environmentId input.variableId = some stored ∧
    stored.deletedAtMs = none ∧ stored.latestStatus = .active ∧ stored.latestVersion = input.baseVersion
  recipients : ∀ input ∈ proposal.variableInputs,
    (input.wraps.map ProposalWrapInput.recipient).Perm (recipientsOf s.chain.state environmentId)

/-- Each named version is one of the proposal's variables, stored, and newer than the base. -/
def VersionsStored (s : ProjectState crypto) (proposalId : ProposalId) (versions : List (VariableId × Nat)) : Prop :=
  ∃ proposal ∈ s.proposals.proposals, proposal.proposalId = proposalId ∧ ∀ entry ∈ versions,
    ∃ named ∈ s.proposals.variableRows, named.proposalId = proposalId ∧ named.variableId = entry.1 ∧
      named.baseVersion < entry.2 ∧ ∃ version ∈ s.data.versions, version.environmentId = proposal.environmentId ∧
        version.variableId = entry.1 ∧ version.version = entry.2

/-- A row, by the state before the step that writes it. An acceptance is the caller's own. -/
def RowTrue (s : ProjectState crypto) (event : ProjectEvent crypto) (row : LogRow) : Prop :=
  match row.event with
  | .rotation (.proposed id variableIds _ _ _) =>
    ∃ nowMs environmentId judgment claimsDigestHex proposal,
      event = .mint nowMs environmentId judgment claimsDigestHex proposal ∧ proposal.proposalId = id ∧
        variableIds = proposal.variableInputs.map (·.variableId) ∧ Minted s environmentId proposal
  | .rotation (.accepted id versions) => (∃ proposal ∈ s.proposals.proposals, proposal.proposalId = id) ∧
    ∃ nowMs userId, event = .resolve nowMs userId id ⟨true, versions⟩
  | .rotation (.expired id expiresAtMs) => expiresAtMs ≤ row.serverTs ∧
    ∃ proposal ∈ s.proposals.proposals, proposal.proposalId = id ∧ proposal.expiresAtMs = expiresAtMs
  | .rotation (.cancelled id) =>
    ∃ proposal ∈ s.proposals.proposals, proposal.proposalId = id ∧ row.serverTs < proposal.expiresAtMs
  | _ => True

/-- The pairs of an acceptance. -/
def PairsTrue (s : ProjectState crypto) (row : LogRow) : Prop :=
  ∀ id versions, row.event = .rotation (.accepted id versions) → VersionsStored s id versions

/-- The resolution gets to a proposal: it is stored, and within the scope of a member who may write. -/
def Reaches (s : ProjectState crypto) (userId : UserId) (proposalId : ProposalId) : Prop :=
  s.mirror = false ∧ ∃ member, requireMemberState s userId .member = .ok member ∧
    ∃ proposal ∈ s.proposals.proposals, proposal.proposalId = proposalId ∧
      scopeIncludesEnvironment member.scope proposal.environmentId = true

/-- An acceptance that gets to a proposal names its variables only, and each with one version. -/
def NamesProposed (s : ProjectState crypto) : ProjectEvent crypto → Prop
  | .resolve _ userId proposalId resolution => resolution.accepts = true → Reaches s userId proposalId →
    ∀ entry ∈ resolution.versions,
      (∃ named ∈ s.proposals.variableRows, named.proposalId = proposalId ∧ named.variableId = entry.1) ∧
        resolution.versions.find? (fun other => other.1 = entry.1) = some entry
  | _ => True

/-- The rows of a step. -/
def Records (s : ProjectState crypto) (event : ProjectEvent crypto) (s' : ProjectState crypto) : Prop :=
  ∃ rows, s'.log = s.log ++ rows ∧ ∀ row ∈ rows, RowTrue s event row

/-- The pairs that a step records. -/
def PairsRecorded (s s' : ProjectState crypto) : Prop :=
  ∃ rows, s'.log = s.log ++ rows ∧ ∀ row ∈ rows, PairsTrue s row

/-! ## What a step tells -/

structure RowTold (s : ProjectState crypto) (event : ProjectEvent crypto) (row : LogRow) : Prop where
  holds : RowTrue s event row
  pairs : NamesProposed s event → PairsTrue s row

def Tells (s : ProjectState crypto) (event : ProjectEvent crypto) (s' : ProjectState crypto) : Prop :=
  ∃ rows, s'.log = s.log ++ rows ∧ ∀ row ∈ rows, RowTold s event row

theorem Tells.refl (s : ProjectState crypto) (event : ProjectEvent crypto) : Tells s event s := ⟨[], by simp, by simp⟩

theorem Tells.append {s s' : ProjectState crypto} {event : ProjectEvent crypto} (h : Tells s event s')
    {rows : List LogRow} (hrows : ∀ row ∈ rows, RowTold s event row) : Tells s event (s'.append rows) := by
  obtain ⟨before, hlog, hbefore⟩ := h
  refine ⟨before ++ rows, ?_, fun row hrow => ?_⟩
  · show s'.log ++ rows = _
    rw [hlog, List.append_assoc]
  · rcases List.mem_append.mp hrow with hrow | hrow
    · exact hbefore row hrow
    · exact hrows row hrow

theorem Tells.records {s s' : ProjectState crypto} {event : ProjectEvent crypto} (h : Tells s event s') :
    Records s event s' ∧ (NamesProposed s event → PairsRecorded s s') := by
  obtain ⟨rows, hlog, htold⟩ := h
  exact ⟨⟨rows, hlog, fun row hrow => (htold row hrow).holds⟩,
    fun hnames => ⟨rows, hlog, fun row hrow => (htold row hrow).pairs hnames⟩⟩

theorem RowTrue.told {s : ProjectState crypto} {event : ProjectEvent crypto} {row : LogRow} (h : RowTrue s event row)
    (hother : ∀ id versions, row.event ≠ .rotation (.accepted id versions)) : RowTold s event row where
  holds := h
  pairs := fun _ id versions hevent => absurd hevent (hother id versions)

theorem rowTold_other {s : ProjectState crypto} {event : ProjectEvent crypto} {row : LogRow} {name : JsString}
    (h : row.event = .other name) : RowTold s event row := by
  have htrue : RowTrue s event row := by
    unfold RowTrue
    rw [h]
    trivial
  refine htrue.told fun id versions hevent => ?_
  rw [h] at hevent
  cases hevent

/-! ## The sweep -/

theorem expiredRow_closes (nowMs : Nat) : Closes (expiredRow nowMs) := fun _ => ⟨_, rfl, rfl, rfl⟩

theorem cancelledRow_closes (userId : UserId) (fingerprint : KeyFingerprintHex) (nowMs : Nat) :
    Closes (cancelledRow userId fingerprint nowMs) := by
  intro removed
  unfold cancelledRow
  split_ifs
  · exact ⟨_, rfl, rfl, rfl⟩
  · exact ⟨_, rfl, rfl, rfl⟩

structure Swept (s s' : ProjectState crypto) (nowMs : Nat) (event : ProjectEvent crypto) : Prop where
  sound : Sound s'.proposals s'.log
  tells : Tells s event s'
  data : s'.data = s.data
  chain : s'.chain = s.chain
  kept : ∃ ids, s'.proposals = withoutProposals s.proposals ids

theorem sweepExpired_swept {s : ProjectState crypto} (h : Sound s.proposals s.log) (nowMs : Nat)
    (except : Option ProposalId) (event : ProjectEvent crypto) : Swept s (sweepExpired s nowMs except) nowMs event where
  sound := h.closeWhere _ (expiredRow_closes nowMs)
  tells := by
    refine ⟨_, rfl, fun row hrow => ?_⟩
    obtain ⟨removed, hremoved, rfl⟩ := List.mem_map.mp hrow
    obtain ⟨proposal, hproposal, hselected, rfl⟩ := mem_removed.mp hremoved
    rw [Bool.and_eq_true, decide_eq_true_eq] at hselected
    exact RowTrue.told ⟨hselected.1, proposal, hproposal, rfl, rfl⟩ nofun
  data := rfl
  chain := rfl
  kept := ⟨_, deleteProposalsWhere_tables _⟩

theorem sweepExpired_pending {s : ProjectState crypto} (h : Sound s.proposals s.log) (nowMs : Nat) :
    ∀ row ∈ (sweepExpired s nowMs none).proposals.proposals, nowMs < row.expiresAtMs := by
  intro row hrow
  have htables : (sweepExpired s nowMs none).proposals = withoutProposals s.proposals
      ((deleteExpiredProposals s.proposals nowMs none).2.map (·.proposalId)) := deleteProposalsWhere_tables _
  rw [htables] at hrow
  obtain ⟨hmem, hout⟩ := List.mem_filter.mp hrow
  by_contra hexpired
  apply of_decide_eq_true hout
  refine List.mem_map.mpr ⟨_, mem_removed.mpr ⟨row, hmem, ?_, rfl⟩, rfl⟩
  have hne : row.proposalId ≠ [] := fun hnil => h.nonempty (hnil ▸ List.mem_map_of_mem hmem)
  simp only [Option.getD_none, Bool.and_eq_true, decide_eq_true_eq]
  exact ⟨by omega, hne⟩

/-! ## The mint -/

theorem variableRefusal_eq_none {s : ProjectState crypto} {environmentId : EnvironmentId}
    {recipients : OrderedMap JsString Unit} {nowMs : Nat} {input : ProposalVariableInput}
    (h : variableRefusal s environmentId recipients nowMs input = none) :
    (∃ stored, findVariable s.data environmentId input.variableId = some stored ∧ stored.deletedAtMs = none ∧
      stored.latestStatus = .active ∧ stored.latestVersion = input.baseVersion) ∧
    recipientsMatch recipients (input.wraps.map ProposalWrapInput.recipient) = true ∧
    variableHasPendingProposal s.proposals environmentId input.variableId nowMs = false := by
  unfold variableRefusal at h
  cases hstored : findVariable s.data environmentId input.variableId with
  | none => rw [hstored] at h; cases h
  | some stored =>
    rw [hstored] at h
    dsimp only at h
    split_ifs at h with hinactive hstale hmismatch hpending
    simp only [Bool.or_eq_true, decide_eq_true_eq, not_or, not_not, Bool.not_eq_true, Option.isSome_eq_false_iff,
      Option.isNone_iff_eq_none, ne_eq] at hinactive
    exact ⟨⟨stored, rfl, hinactive.1, hinactive.2, not_not.mp hstale⟩, by simpa using hmismatch, by simpa using hpending⟩

theorem proposalRefusal_eq_none {s : ProjectState crypto} {environmentId : EnvironmentId}
    {proposal : RotationProposalInput} {nowMs : Nat} (h : proposalRefusal s environmentId proposal nowMs = none) :
    proposal.proposalId ∉ s.proposals.ids ∧ ∀ input ∈ proposal.variableInputs,
      variableRefusal s environmentId (proposalRecipientKeys s.chain.state environmentId) nowMs input = none := by
  unfold proposalRefusal at h
  by_cases hexists : proposalExists s.proposals proposal.proposalId = true
  · rw [if_pos hexists] at h
    cases h
  by_cases htwice : namesVariableTwice (proposal.variableInputs.map (·.variableId)) = true
  · rw [if_neg hexists, if_pos htwice] at h
    cases h
  rw [if_neg hexists, if_neg htwice] at h
  dsimp only at h
  constructor
  · intro hid
    obtain ⟨row, hrow, heq⟩ := List.mem_map.mp hid
    apply hexists
    unfold proposalExists
    rw [List.any_eq_true]
    exact ⟨row, hrow, decide_eq_true heq⟩
  · cases hvariables : proposal.variableInputs.findSome?
        (variableRefusal s environmentId (proposalRecipientKeys s.chain.state environmentId) nowMs) with
    | some reason => rw [hvariables] at h; cases h
    | none => exact List.findSome?_eq_none_iff.mp hvariables

theorem minted_of_refusal {s : ProjectState crypto} {environmentId : EnvironmentId} {proposal : RotationProposalInput}
    {nowMs : Nat} (h : proposalRefusal s environmentId proposal nowMs = none) : Minted s environmentId proposal where
  live := fun input hinput => (variableRefusal_eq_none ((proposalRefusal_eq_none h).2 input hinput)).1
  recipients := by
    intro input hinput
    refine recipients_exact s.chain environmentId (fun wrap hwrap => ?_)
      (variableRefusal_eq_none ((proposalRefusal_eq_none h).2 input hinput)).2.1
    obtain ⟨sealedTo, -, rfl⟩ := List.mem_map.mp hwrap
    have hhex := sealedTo.enc_pub_hex
    simp only [isLowercaseHexOfLength, Bool.and_eq_true, decide_eq_true_eq] at hhex
    exact hhex.1

theorem proposal_id_ne_nil (proposal : RotationProposalInput) : proposal.proposalId ≠ [] := by
  intro hnil
  have hhex := proposal.id_hex
  rw [hnil] at hhex
  cases hhex

theorem recordDenied_step {s : ProjectState crypto} (h : Sound s.proposals s.log) (judgment : WorkloadJudgment)
    (nowMs : Nat) (event : ProjectEvent crypto) :
    Sound (recordDenied judgment nowMs s).proposals (recordDenied judgment nowMs s).log ∧
      Tells s event (recordDenied judgment nowMs s) := by
  unfold recordDenied
  split_ifs
  · refine ⟨h.others (by simp), (Tells.refl s event).append fun row hrow => ?_⟩
    obtain rfl := List.mem_singleton.mp hrow
    exact rowTold_other rfl
  · exact ⟨h, .refl s event⟩

theorem mint_step {s : ProjectState crypto} (h : Sound s.proposals s.log) (nowMs : Nat) (environmentId : EnvironmentId)
    (judgment : WorkloadJudgment) (claimsDigestHex : JsString) (proposal : RotationProposalInput) :
    let s' := (proposeRotationProgram s nowMs environmentId judgment claimsDigestHex proposal).1
    Sound s'.proposals s'.log ∧
      Tells s (.mint nowMs environmentId judgment claimsDigestHex proposal) s' := by
  unfold proposeRotationProgram
  dsimp only
  cases judgment.authorization with
  | error rejection => exact recordDenied_step h judgment nowMs _
  | ok grantSeq =>
    dsimp only
    split_ifs
    · exact ⟨h, .refl s _⟩
    · exact ⟨h, .refl s _⟩
    · cases checkLeaseWindow s.window maxRotationProposalsPerWindow nowMs with
      | some retryAfterSeconds => exact recordDenied_step h judgment nowMs _
      | none =>
        dsimp only
        have hswept := sweepExpired_swept h nowMs none
          (.mint nowMs environmentId judgment claimsDigestHex proposal)
        cases hrefusal : proposalRefusal (sweepExpired s nowMs none) environmentId proposal nowMs with
        | some reason => exact ⟨hswept.sound, hswept.tells⟩
        | none =>
          obtain ⟨hid, hvariables⟩ := proposalRefusal_eq_none hrefusal
          refine ⟨hswept.sound.insert hid (proposal_id_ne_nil proposal) (sweepExpired_pending h nowMs)
            (fun input hinput => (variableRefusal_eq_none (hvariables input hinput)).2.2) rfl rfl rfl, ?_⟩
          refine Tells.append hswept.tells fun row hrow => ?_
          have hminted := minted_of_refusal hrefusal
          rw [List.mem_singleton.mp hrow]
          exact RowTrue.told
            ⟨nowMs, environmentId, judgment, claimsDigestHex, proposal, rfl, rfl, rfl, hminted.live, hminted.recipients⟩ nofun

theorem preflight_step {s : ProjectState crypto} (h : Sound s.proposals s.log) (nowMs : Nat)
    (environmentId : EnvironmentId) (judgment : WorkloadJudgment) (named : List (VariableId × Nat))
    (recipients : List (UserId × JsString)) (event : ProjectEvent crypto) :
    let s' := (preflightRotationProgram s nowMs environmentId judgment named recipients).1
    Sound s'.proposals s'.log ∧ Tells s event s' := by
  unfold preflightRotationProgram
  dsimp only
  have hswept := sweepExpired_swept h nowMs none event
  cases judgment.authorization with
  | error rejection => exact recordDenied_step h judgment nowMs event
  | ok grantSeq =>
    dsimp only
    split_ifs
    · exact ⟨h, .refl s _⟩
    · exact ⟨h, .refl s _⟩
    · cases checkLeaseWindow s.window maxRotationProposalsPerWindow nowMs with
      | some retryAfterSeconds => exact ⟨h, .refl s _⟩
      | none =>
        dsimp only
        cases preflightRefusal (sweepExpired s nowMs none) environmentId named recipients nowMs with
        | some reason => exact ⟨hswept.sound, hswept.tells⟩
        | none => exact ⟨hswept.sound, hswept.tells⟩

theorem list_step {s : ProjectState crypto} (h : Sound s.proposals s.log) (nowMs : Nat) (userId : UserId)
    (event : ProjectEvent crypto) :
    let s' := (listRotationProposalsProgram s nowMs userId).1
    Sound s'.proposals s'.log ∧ Tells s event s' := by
  unfold listRotationProposalsProgram
  cases requireMemberState s userId .member with
  | error rejection => exact ⟨h, .refl s event⟩
  | ok member =>
    dsimp only
    split_ifs
    · exact ⟨h, .refl s event⟩
    · exact ⟨(sweepExpired_swept h nowMs none event).sound, (sweepExpired_swept h nowMs none event).tells⟩

/-! ## The resolution -/

theorem findProposal_mem {tables : ProposalTables} {id : ProposalId} {proposal : ProposalRow}
    (h : findProposal tables id = some proposal) : proposal ∈ tables.proposals ∧ proposal.proposalId = id := by
  unfold findProposal at h
  exact ⟨List.mem_of_find?_eq_some h, by simpa using List.find?_some h⟩

/-- The check answers for the first version that is named of each variable. -/
theorem versionsRefusal_eq_none {s : ProjectState crypto} {proposal : ProposalRow} {versions : List (VariableId × Nat)}
    (h : versionsRefusal s proposal versions = none) {named : ProposalVariableRow} (hnamed : named ∈ s.proposals.variableRows)
    (hof : named.proposalId = proposal.proposalId) {entry : VariableId × Nat}
    (hentry : versions.find? (fun other => other.1 = named.variableId) = some entry) :
    named.baseVersion < entry.2 ∧ ∃ version ∈ s.data.versions, version.environmentId = proposal.environmentId ∧
      version.variableId = named.variableId ∧ version.version = entry.2 := by
  unfold versionsRefusal at h
  split_ifs at h with hany
  rw [List.any_eq_true] at hany
  have hmem : named ∈ proposalVariables s.proposals proposal.proposalId := by
    unfold proposalVariables
    rw [(List.perm_insertionSort _ _).mem_iff, List.mem_filter]
    exact ⟨hnamed, decide_eq_true hof⟩
  have hrefused : versionRefused s proposal versions named = false := by
    rw [Bool.eq_false_iff]
    exact fun hrefused => hany ⟨named, hmem, hrefused⟩
  unfold versionRefused at hrefused
  rw [hentry] at hrefused
  simp only [Bool.or_eq_false_iff, decide_eq_false_iff_not, not_le] at hrefused
  refine ⟨hrefused.1, ?_⟩
  unfold versionAnchor at hrefused
  cases hanchor : s.data.versions.find? fun row => row.environmentId = proposal.environmentId &&
      row.variableId = named.variableId && row.version = entry.2 with
  | none => simp [hanchor] at hrefused
  | some version =>
    have hsome := List.find?_some hanchor
    simp only [Bool.and_eq_true, decide_eq_true_eq] at hsome
    exact ⟨version, List.mem_of_find?_eq_some hanchor, hsome.1.1, hsome.1.2, hsome.2⟩

theorem accepted_told {s : ProjectState crypto} (h : Sound s.proposals s.log) (hwrites : s.mirror = false) {nowMs : Nat}
    {userId : UserId} {proposalId : ProposalId} {versions : List (VariableId × Nat)} {member : ChainMember}
    (hmember : requireMemberState s userId .member = .ok member) {proposal : ProposalRow}
    (hfind : findProposal (sweepExpired s nowMs (some proposalId)).proposals proposalId = some proposal)
    (hscope : scopeIncludesEnvironment member.scope proposal.environmentId = true)
    (hrefusal : versionsRefusal (sweepExpired s nowMs (some proposalId)) proposal versions = none) {row : LogRow}
    (hrow : row.event = .rotation (.accepted proposalId versions)) :
    RowTold s (.resolve nowMs userId proposalId ⟨true, versions⟩) row := by
  have hswept := sweepExpired_swept h nowMs (some proposalId) (.resolve nowMs userId proposalId ⟨true, versions⟩)
  obtain ⟨ids, hkept⟩ := hswept.kept
  obtain ⟨hmem, hid⟩ := findProposal_mem hfind
  rw [hkept] at hmem
  obtain ⟨hstored, hout⟩ := List.mem_filter.mp hmem
  refine ⟨?_, fun hnames id versions' hevent => ?_⟩
  · unfold RowTrue
    rw [hrow]
    exact ⟨⟨proposal, hstored, hid⟩, nowMs, userId, rfl⟩
  · rw [hrow] at hevent
    cases hevent
    refine ⟨proposal, hstored, hid, fun entry hentry => ?_⟩
    obtain ⟨⟨named, hnamed, hof, hvariable⟩, hfirst⟩ :=
      hnames rfl ⟨hwrites, member, hmember, proposal, hstored, hid, hscope⟩ entry hentry
    have hnamedKept : named ∈ (sweepExpired s nowMs (some proposalId)).proposals.variableRows := by
      rw [hkept]
      refine List.mem_filter.mpr ⟨hnamed, ?_⟩
      rw [hid] at hout
      rw [hof]
      exact hout
    rw [← hvariable] at hfirst
    obtain ⟨hnewer, hversion⟩ := versionsRefusal_eq_none hrefusal hnamedKept (hof.trans hid.symm) hfirst
    rw [hswept.data, hvariable] at hversion
    exact ⟨named, hnamed, hof, hvariable, hnewer, hversion⟩

theorem resolve_step {s : ProjectState crypto} (h : Sound s.proposals s.log) (hwrites : s.mirror = false) (nowMs : Nat)
    (userId : UserId) (proposalId : ProposalId) (resolution : ProposalResolution) :
    let s' := (resolveRotationProposalProgram nowMs userId proposalId resolution s).1
    Sound s'.proposals s'.log ∧ Tells s (.resolve nowMs userId proposalId resolution) s' := by
  have hswept := sweepExpired_swept h nowMs (some proposalId) (.resolve nowMs userId proposalId resolution)
  unfold resolveRotationProposalProgram
  dsimp only
  cases hmember : requireMemberState s userId .member with
  | error rejection => exact ⟨h, .refl s _⟩
  | ok member =>
    dsimp only
    cases hfind : findProposal (sweepExpired s nowMs (some proposalId)).proposals proposalId with
    | none => exact ⟨hswept.sound, hswept.tells⟩
    | some proposal =>
      obtain ⟨hmem, hid⟩ := findProposal_mem hfind
      have hstored : proposalId ∈ (sweepExpired s nowMs (some proposalId)).proposals.ids :=
        List.mem_map.mpr ⟨proposal, hmem, hid⟩
      obtain ⟨accepts, versions⟩ := resolution
      dsimp only
      split_ifs with hscope haccepts
      · exact ⟨hswept.sound, hswept.tells⟩
      · obtain rfl : accepts = true := haccepts
        cases hrefusal : versionsRefusal (sweepExpired s nowMs (some proposalId)) proposal versions with
        | some reason => exact ⟨hswept.sound, hswept.tells⟩
        | none =>
          refine ⟨hswept.sound.closeOne hstored rfl rfl rfl, Tells.append hswept.tells fun row hrow => ?_⟩
          rw [List.mem_singleton.mp hrow]
          exact accepted_told h hwrites hmember hfind (by simpa using hscope) hrefusal rfl
      · obtain rfl : accepts = false := by simpa using haccepts
        refine ⟨hswept.sound.closeOne hstored rfl rfl rfl, Tells.append hswept.tells fun row hrow => ?_⟩
        rw [List.mem_singleton.mp hrow]
        exact RowTrue.told trivial nofun

/-! ## Every step -/

theorem deleteEnvironment_step {s : ProjectState crypto} (h : Sound s.proposals s.log) (nowMs : Nat)
    (environmentId : EnvironmentId) (userId : UserId) (fingerprint : KeyFingerprintHex) (next : VerifiedChain crypto)
    (event : ProjectEvent crypto) :
    let s' := deleteEnvironmentWrites nowMs environmentId userId fingerprint next s
    Sound s'.proposals s'.log ∧ Tells s event s' := by
  unfold deleteEnvironmentWrites retireEnvironment
  dsimp only
  generalize (s.data.variableRows.filter fun row =>
    row.environmentId = environmentId && row.deletedAtMs.isNone) = live
  let memberRows := [memberRow "chain.environment_deleted" environmentId userId fingerprint nowMs] ++
    live.map fun _ => memberRow "var.deleted" environmentId userId fingerprint nowMs
  let last := [memberRow "env.deleted" environmentId userId fingerprint nowMs]
  let selected : ProposalRow → Bool := fun row => row.environmentId = environmentId
  have hmembers : ∀ row ∈ memberRows, ∃ name, row.event = .other name := by
    intro row hrow
    rcases List.mem_append.mp hrow with hrow | hrow
    · obtain rfl := List.mem_singleton.mp hrow
      exact ⟨_, rfl⟩
    · obtain ⟨_, -, rfl⟩ := List.mem_map.mp hrow
      exact ⟨_, rfl⟩
  have hlast : ∀ row ∈ last, ∃ name, row.event = .other name := by
    intro row hrow
    obtain rfl := List.mem_singleton.mp hrow
    exact ⟨_, rfl⟩
  constructor
  · have hall := ((h.others hmembers).closeWhere selected (cancelledRow_closes userId fingerprint nowMs)).others hlast
    rw [List.append_assoc, List.append_assoc, ← List.append_assoc memberRows] at hall
    exact hall
  · refine ⟨_, rfl, fun row hrow => ?_⟩
    rcases List.mem_append.mp hrow with hrow | hrow
    · rcases List.mem_append.mp hrow with hrow | hrow
      · obtain ⟨name, hname⟩ := hmembers row hrow
        exact rowTold_other hname
      · obtain ⟨removed, hremoved, rfl⟩ := List.mem_map.mp hrow
        obtain ⟨proposal, hproposal, -, rfl⟩ := mem_removed.mp hremoved
        unfold cancelledRow
        split_ifs with hexpired
        · exact RowTrue.told ⟨hexpired, proposal, hproposal, rfl, rfl⟩ nofun
        · exact RowTrue.told ⟨proposal, hproposal, rfl, not_le.mp hexpired⟩ nofun
    · obtain ⟨name, hname⟩ := hlast row hrow
      exact rowTold_other hname

theorem step_sound {s : ProjectState crypto} (h : Sound s.proposals s.log) (event : ProjectEvent crypto) :
    Sound (s.step event).proposals (s.step event).log ∧ Tells s event (s.step event) := by
  cases event with
  | mint nowMs environmentId judgment claimsDigestHex proposal =>
    exact mint_step h nowMs environmentId judgment claimsDigestHex proposal
  | preflight nowMs environmentId judgment named recipients =>
    exact preflight_step h nowMs environmentId judgment named recipients _
  | list nowMs userId => exact list_step h nowMs userId _
  | resolve nowMs userId proposalId resolution =>
    unfold ProjectState.step runWrite
    dsimp only
    cases requireMemberState s userId .reader with
    | error rejection => exact ⟨h, .refl s _⟩
    | ok member =>
      dsimp only
      split_ifs with hmirror
      · exact ⟨h, .refl s _⟩
      · exact resolve_step h (by simpa using hmirror) nowMs userId proposalId resolution
  | deleteEnvironment nowMs environmentId userId fingerprint next =>
    unfold ProjectState.step
    cases next with
    | none => exact ⟨h, .refl s _⟩
    | some next =>
      dsimp only
      split_ifs
      · exact ⟨h, .refl s _⟩
      · exact deleteEnvironment_step h nowMs environmentId userId fingerprint next _
  | writeVariables nowMs writes events =>
    refine ⟨h.others ?_, (Tells.refl s _).append fun row hrow => ?_⟩
    · simp [otherRow]
    · obtain ⟨event, -, rfl⟩ := List.mem_map.mp hrow
      exact rowTold_other rfl
  | chain nowMs next events =>
    refine ⟨h.others ?_, (Tells.refl s _).append fun row hrow => ?_⟩
    · simp [otherRow]
    · obtain ⟨event, -, rfl⟩ := List.mem_map.mp hrow
      exact rowTold_other rfl

/-! ## Every run -/

/-- The proposals of a state and their rows. -/
structure LifeCycle (s : ProjectState crypto) : Prop where
  alternates : ∀ id, ∃ isOpen, Alternates (eventsOf id s.log) isOpen ∧
    (isOpen = true ↔ ∃ row ∈ s.proposals.proposals, row.proposalId = id)
  once : ∀ a ∈ s.proposals.proposals, ∀ b ∈ s.proposals.proposals, a.proposalId = b.proposalId → a = b
  apart : ∀ t, ∀ a ∈ s.proposals.proposals, ∀ b ∈ s.proposals.proposals, t < a.expiresAtMs → t < b.expiresAtMs →
    NamesSame s.proposals a b → a = b

theorem Sound.lifeCycle {s : ProjectState crypto} (h : Sound s.proposals s.log) : LifeCycle s where
  alternates := by
    intro id
    obtain ⟨isOpen, halternates, hiff⟩ := h.life id
    exact ⟨isOpen, halternates, hiff.trans List.mem_map⟩
  once := fun a ha b hb hid => List.inj_on_of_nodup_map h.keys ha hb hid
  apart := fun _ a ha b hb _ _ hsame => List.inj_on_of_nodup_map h.keys ha hb (h.apart a ha b hb hsame)

theorem run_sound {s : ProjectState crypto} (h : Sound s.proposals s.log) (events : List (ProjectEvent crypto)) :
    Sound (s.run events).proposals (s.run events).log ∧
      ∀ t ∈ transitions s events, Sound t.1.proposals t.1.log ∧ Tells t.1 t.2 (t.1.step t.2) := by
  induction events generalizing s with
  | nil => exact ⟨h, by simp [transitions]⟩
  | cons event rest ih =>
    obtain ⟨hsound, htells⟩ := step_sound h event
    obtain ⟨hlast, hsteps⟩ := ih hsound
    exact ⟨hlast, List.forall_mem_cons.mpr ⟨⟨h, htells⟩, hsteps⟩⟩

/-- The life cycle holds in every run, and the pairs that an acceptance records are true where it names its own. -/
theorem sealed_proposal_life_cycle (chain : VerifiedChain crypto) (mirror : Bool) (events : List (ProjectEvent crypto)) :
    LifeCycle ((ProjectState.start chain mirror).run events) ∧
      ∀ t ∈ transitions (.start chain mirror) events, LifeCycle t.1 ∧ Records t.1 t.2 (t.1.step t.2) ∧
        (NamesProposed t.1 t.2 → PairsRecorded t.1 (t.1.step t.2)) := by
  obtain ⟨hlast, hsteps⟩ := run_sound (s := .start chain mirror) sound_empty events
  exact ⟨hlast.lifeCycle, fun t ht => ⟨(hsteps t ht).1.lifeCycle, (hsteps t ht).2.records⟩⟩

/-! ## One proposal, and what its acceptance names

A value is proposed at base version 1, and its member pushes version 2. -/

def grantedEntries : List ChainEntry :=
  notarizedEntries.take 2 ++
    [exampleEntry 3 (hex 32 0x70d7925989d4a0814b73d0d6cfcfaf9d994c3673f21747d2c3538fb422c139f3)
      (.direct (.grantServer exampleGrant)) "alice" notaryKey
      0xf48da2550f793f33873c80dfe028995ab53fb17324be5e08f12d3c98fc9c166f09246f67b353482c87aff2cb6f944a7b59eba713adce62a829a36d15b2c88300]

def grantedCrypto : Crypto := signedBy [notaryKey] grantedEntries

set_option maxRecDepth 100000 in
theorem granted_evaluates : (stateAfter grantedCrypto (grantedEntries.map entryJson)).isSome = true := by
  rw [grantedCrypto, signedBy_eq]
  decide +kernel

def grantedChain : VerifiedChain grantedCrypto where
  entries := grantedEntries.map entryJson
  state := (stateAfter grantedCrypto (grantedEntries.map entryJson)).get granted_evaluates
  derived := (Option.some_get granted_evaluates).symm
  distinct := by decide +kernel

def proposedWrap : ProposalWrapInput where
  recipientUserId := lit "alice"
  recipientEncPubHex := notaryKey.enc
  encHex := List.replicate 64 49
  ciphertextHex := List.replicate 34 50
  enc_pub_hex := by decide +kernel

def proposedKey : RotationProposalInput where
  proposalId := List.replicate 32 51
  connector := .exec
  facts := []
  expiresInDays := 7
  variableInputs := [⟨lit "API_KEY", 1, [proposedWrap]⟩]
  id_hex := by decide +kernel

def pushedRun : List (ProjectEvent grantedCrypto) :=
  [.writeVariables 1000 [.insertVariable (lit "prod") (lit "API_KEY") (lit "key"),
      .insertVariableMetaStatement (lit "prod") (lit "API_KEY") 1 (lit "key") .active,
      .insertVersion (lit "prod") (lit "API_KEY") 1 33] [lit "var.created"],
    .mint 2000 (lit "prod") ⟨.ok 3, false, false⟩ (List.replicate 64 52) proposedKey,
    .writeVariables 3000 [.insertVersion (lit "prod") (lit "API_KEY") 2 33] [lit "var.version_pushed"]]

def acceptance (versions : List (VariableId × Nat)) : ProjectEvent grantedCrypto :=
  .resolve 4000 (lit "alice") proposedKey.proposalId ⟨true, versions⟩

/-- The second pair names a variable that is not proposed, at a version nobody stored. -/
def overnamed : List (VariableId × Nat) := [(lit "API_KEY", 2), (lit "OTHER", 99)]

def named : List (VariableId × Nat) := [(lit "API_KEY", 2)]

def pushedState : ProjectState grantedCrypto := (ProjectState.start grantedChain false).run pushedRun

set_option maxRecDepth 100000 in
theorem pushedState_facts : pushedState.proposals.variableRows = [⟨proposedKey.proposalId, lit "API_KEY", 1, 0⟩] ∧
    pushedState.log.length = 3 ∧ (pushedState.step (acceptance named)).proposals.proposals = [] ∧
    ((pushedState.step (acceptance overnamed)).log.drop 3).map (fun row => row.event) =
      [.rotation (.accepted proposedKey.proposalId overnamed)] := by decide +kernel

theorem transitions_append (s : ProjectState crypto) (events later : List (ProjectEvent crypto)) :
    transitions s (events ++ later) = transitions s events ++ transitions (s.run events) later := by
  induction events generalizing s with
  | nil => rfl
  | cons event rest ih =>
    rw [List.cons_append, transitions, ih, transitions, List.cons_append]
    rfl

theorem transitions_pair (s : ProjectState crypto) (event later : ProjectEvent crypto) :
    transitions s [event, later] = [(s, event), (s.step event, later)] := rfl

/-- An accepted row that names what its proposal does not. -/
theorem overnamed_recorded : ∃ t ∈ transitions (.start grantedChain false) (pushedRun ++ [acceptance overnamed]),
    LifeCycle t.1 ∧ ¬ PairsRecorded t.1 (t.1.step t.2) := by
  obtain ⟨hvariables, hlength, -, hlog⟩ := pushedState_facts
  refine ⟨(pushedState, acceptance overnamed), ?_, ?_, ?_⟩
  · rw [transitions_append]
    exact List.mem_append_right _ (List.mem_singleton_self _)
  · exact (run_sound (s := .start grantedChain false) sound_empty pushedRun).1.lifeCycle
  · rintro ⟨rows, hrows, htrue⟩
    dsimp only at hrows htrue
    rw [hrows, ← hlength, List.drop_left] at hlog
    obtain ⟨row, rest, rfl, hevent, -⟩ := List.map_eq_cons_iff.mp hlog
    obtain ⟨proposal, -, -, hentries⟩ := htrue row (by simp) _ _ hevent
    obtain ⟨proposed, hproposed, -, hvariable, -⟩ := hentries (lit "OTHER", 99) (by simp [overnamed])
    rw [hvariables, List.mem_singleton] at hproposed
    rw [hproposed] at hvariable
    revert hvariable
    decide

theorem pushedRun_names : ∀ t ∈ transitions (.start grantedChain false) pushedRun, NamesProposed t.1 t.2 := by
  simp [transitions, pushedRun, NamesProposed]

/-- The member accepts with the pushed version and asks again, with pairs of another variable: the proposal is gone. -/
theorem pushed_life_cycle :
    ∀ t ∈ transitions (.start grantedChain false) (pushedRun ++ [acceptance named, acceptance overnamed]),
      LifeCycle t.1 ∧ Records t.1 t.2 (t.1.step t.2) ∧ PairsRecorded t.1 (t.1.step t.2) := by
  obtain ⟨hvariables, -, hgone, -⟩ := pushedState_facts
  have haccepts : NamesProposed pushedState (acceptance named) := by
    intro _ _ entry hentry
    obtain rfl := List.mem_singleton.mp hentry
    refine ⟨⟨⟨proposedKey.proposalId, lit "API_KEY", 1, 0⟩, ?_, rfl, rfl⟩, by decide⟩
    rw [hvariables]
    exact List.mem_singleton_self _
  have hretries : NamesProposed (pushedState.step (acceptance named)) (acceptance overnamed) := by
    rintro - ⟨-, member, -, proposal, hstored, -⟩
    rw [hgone] at hstored
    cases hstored
  have hnames : ∀ t ∈ transitions (.start grantedChain false) (pushedRun ++ [acceptance named, acceptance overnamed]),
      NamesProposed t.1 t.2 := by
    have hrun : (ProjectState.start grantedChain false).run pushedRun = pushedState := rfl
    rw [transitions_append, hrun, transitions_pair]
    simp only [List.forall_mem_append, List.forall_mem_cons, List.not_mem_nil, false_implies, implies_true, and_true]
    exact ⟨pushedRun_names, haccepts, hretries⟩
  intro t ht
  obtain ⟨hlife, hrecords, hpairs⟩ := (sealed_proposal_life_cycle grantedChain false _).2 t ht
  exact ⟨hlife, hrecords, hpairs (hnames t ht)⟩

end Maruhi.Proposals
