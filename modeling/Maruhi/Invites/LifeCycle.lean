import Maruhi.Invites.Calls
import Maruhi.Lib.Lookback
import Mathlib.Algebra.Order.Ring.Int

/-!
# The life cycle of an invitation

Every interleaving of the calls, with the clock reading what it likes; only the cap on pending invitations needs
it not to go back.
-/

namespace Maruhi.Invites

/-! ## One invitation -/

structure InvitationRow.Unaccepted (row : InvitationRow) : Prop where
  inviteeUserId : row.inviteeUserId = none
  inviteeEncPub : row.inviteeEncPub = none
  inviteeSigPub : row.inviteeSigPub = none
  acceptSignature : row.acceptSignature = none
  linkSignature : row.linkSignature = none
  acceptedAt : row.acceptedAt = none

/-- What one request can do to the stored invitation of an id. -/
inductive Moves : Option InvitationRow → Option InvitationRow → Prop
  | stays (row : Option InvitationRow) : Moves row row
  | issued (input : InviteCreateInput) (nowMs : Int) : Moves none (some (issuedRow input nowMs))
  | accepted (row : InvitationRow) (input : InviteAcceptInput) (nowMs : Int) (hstatus : row.status = .pending)
      (hexpiry : nowMs < row.expiresAt) : Moves (some row) (some (acceptedRow input nowMs row))
  | completed (row : InvitationRow) (hstatus : row.status = .accepted) :
      Moves (some row) (some (row.withStatus .completed))
  | revoked (row : InvitationRow) (hstatus : row.status = .pending ∨ row.status = .accepted) :
      Moves (some row) (some (row.withStatus .revoked))

section Rows
variable {db db' : D1} {call call' : Call}

theorem row?_insert (db : D1) {input : InviteCreateInput} {nowMs : Int}
    (h : ∀ column, db.invitations.taken (issuedRow input nowMs) column = false) (audit : List OrgAuditRow) (id : InviteId) :
    D1.row? ⟨db.invitations.insert (issuedRow input nowMs) h, audit⟩ id =
      if id = input.id then some (issuedRow input nowMs) else db.row? id :=
  db.invitations.find?_insert h .id id

theorem row?_update (db : D1) (p : InvitationRow → Bool) {f : InvitationRow → InvitationRow}
    (hf : ∀ column row, (f row).column column = row.column column) (audit : List OrgAuditRow) (id : InviteId) :
    D1.row? ⟨db.invitations.update p f hf, audit⟩ id = (db.row? id).map fun row => if p row then f row else row :=
  db.invitations.find?_update p hf .id id

theorem row?_update_of_ne (db : D1) {p : InvitationRow → Bool} {f : InvitationRow → InvitationRow}
    (hf : ∀ column row, (f row).column column = row.column column) {target : InviteId}
    (hp : ∀ row, p row = true → row.id = target) (audit : List OrgAuditRow) {id : InviteId} (hne : target ≠ id) :
    D1.row? ⟨db.invitations.update p f hf, audit⟩ id = db.row? id := by
  rw [row?_update]
  cases hrow : db.row? id with
  | none => rfl
  | some row =>
    have hid : row.id = id := (SqlTable.find?_eq_some.mp hrow).2
    rw [Option.map_some, if_neg fun h => hne ((hp row h).symm.trans hid)]

theorem row?_of_free {row : InvitationRow} (h : ∀ column, db.invitations.taken row column = false) :
    db.row? row.id = none :=
  SqlTable.find?_eq_none.mpr (SqlTable.not_taken.mp (h .id))

theorem Moves.update {row : Option InvitationRow} {p : InvitationRow → Bool} {f : InvitationRow → InvitationRow}
    (h : ∀ r, row = some r → p r = true → Moves (some r) (some (f r))) :
    Moves row (row.map fun r => if p r then f r else r) := by
  cases row with
  | none => exact .stays none
  | some r =>
    rw [Option.map_some]
    split_ifs with hp
    · exact h r rfl hp
    · exact .stays (some r)

theorem Effect.moves (h : Effect db call db' call') (id : InviteId) : Moves (db.row? id) (db'.row? id) := by
  cases h with
  | quiet => exact .stays _
  | issued input actor hcall hfree hpending hwindow =>
    rw [row?_insert]
    split_ifs with hid
    · subst hid
      have hnone : db.row? input.id = none := row?_of_free hfree
      rw [hnone]
      exact .issued input call.nowMs
    · exact .stays _
  | accepted input actor row hcall hrow hstatus hexpiry =>
    rw [row?_update]
    refine .update fun r _ hr => ?_
    simp only [acceptable, Bool.and_eq_true, decide_eq_true_eq] at hr
    exact .accepted r input call.nowMs hr.1.2 hr.2
  | revoked projectId id role actor row hcall hrow hproject hstatus =>
    rw [row?_update]
    refine .update fun r _ hr => ?_
    simp only [revocable, Bool.and_eq_true, Bool.or_eq_true, decide_eq_true_eq] at hr
    exact .revoked r hr.2
  | completed target hcall =>
    unfold completeAccepted
    rw [row?_update]
    refine .update fun r _ hr => ?_
    simp only [completable, Bool.and_eq_true, decide_eq_true_eq] at hr
    exact .completed r hr.1.1.2

end Rows

theorem Moves.keeps {row later : Option InvitationRow} (h : Moves row later) {acceptance : InviteAcceptance}
    (hrow : row.bind acceptanceOf = some acceptance) (hpending : ∀ r, row = some r → r.status = .pending → r.Unaccepted) :
    later.bind acceptanceOf = some acceptance := by
  cases h with
  | stays => exact hrow
  | issued => cases hrow
  | accepted r input nowMs hstatus hexpiry =>
    have hnone : acceptanceOf r = none := by
      unfold acceptanceOf
      rw [(hpending r rfl hstatus).inviteeUserId]
    rw [Option.bind_some, hnone] at hrow
    cases hrow
  | completed r hstatus => exact hrow
  | revoked r hstatus => exact hrow

/-! ## What the log and the callers know of it -/

def auditOf (db : D1) (id : InviteId) : List OrgAuditRow := db.orgAuditEvents.filter fun row => row.payload.inviteId = id

/-- The acceptances of the invitation that calls have answered with. -/
def acceptancesOf (calls : List Call) (id : InviteId) : List InviteAcceptance := calls.filterMap (Call.acceptance? id)

structure Records (row : InvitationRow) (event : InviteAuditEvent) (audit : OrgAuditRow) : Prop where
  event : audit.payload.event = event
  project : audit.projectId = row.projectId

/-- The stored row, its audit rows in order and the acceptances answered. -/
inductive Story : Option InvitationRow → List OrgAuditRow → List InviteAcceptance → Prop
  | absent : Story none [] []
  | pending {row : InvitationRow} {created : OrgAuditRow} (hstatus : row.status = .pending) (hrow : row.Unaccepted)
      (hcreated : Records row .created created) : Story (some row) [created] []
  | accepted {row : InvitationRow} {created accepted : OrgAuditRow} {acceptance : InviteAcceptance}
      (hstatus : row.status = .accepted ∨ row.status = .completed) (hrow : acceptanceOf row = some acceptance)
      (hexpiry : acceptance.acceptedAtMs < row.expiresAt) (hcreated : Records row .created created)
      (haccepted : Records row .accepted accepted) : Story (some row) [created, accepted] [acceptance]
  | revoked {row : InvitationRow} {created revoked : OrgAuditRow} (hstatus : row.status = .revoked)
      (hrow : row.Unaccepted) (hcreated : Records row .created created) (hrevoked : Records row .revoked revoked) :
      Story (some row) [created, revoked] []
  | revokedAccepted {row : InvitationRow} {created accepted revoked : OrgAuditRow} {acceptance : InviteAcceptance}
      (hstatus : row.status = .revoked) (hrow : acceptanceOf row = some acceptance)
      (hexpiry : acceptance.acceptedAtMs < row.expiresAt) (hcreated : Records row .created created)
      (haccepted : Records row .accepted accepted) (hrevoked : Records row .revoked revoked) :
      Story (some row) [created, accepted, revoked] [acceptance]

section Step
variable {db db' : D1} {call call' : Call} {calls : List Call} {index : Nat} {id : InviteId}

theorem filterMap_set {α β : Type} (f : α → Option β) {l : List α} {i : Nat} {a : α} (h : l[i]? = some a) (a' : α) :
    ((l.set i a').filterMap f = l.filterMap f ∨ f a' ≠ f a) ∧
    (l.filterMap f = [] → (l.set i a').filterMap f = (f a').toList) := by
  obtain ⟨hlt, rfl⟩ := List.getElem?_eq_some_iff.mp h
  have hset : l.set i a' = l.take i ++ a' :: l.drop (i + 1) := by
    rw [List.set_eq_take_append_cons_drop, if_pos hlt]
  have hl : l = l.take i ++ l[i] :: l.drop (i + 1) := by
    rw [List.getElem_cons_drop, List.take_append_drop]
  constructor
  · by_cases hf : f a' = f l[i]
    · refine .inl ?_
      conv_rhs => rw [hl]
      rw [hset, List.filterMap_append, List.filterMap_append, List.filterMap_cons, List.filterMap_cons, hf]
    · exact .inr hf
  · intro hnil
    rw [hl, List.filterMap_append, List.append_eq_nil_iff] at hnil
    obtain ⟨hbefore, hafter⟩ := hnil
    rw [List.filterMap_cons] at hafter
    rw [hset, List.filterMap_append, List.filterMap_cons, hbefore, List.nil_append]
    have hrest : (l.drop (i + 1)).filterMap f = [] := by
      split at hafter
      · exact hafter
      · cases hafter
    rw [hrest]
    cases f a' <;> rfl

theorem acceptancesOf_set (hcall : calls[index]? = some call) (h : call'.acceptance? id = call.acceptance? id) :
    acceptancesOf (calls.set index call') id = acceptancesOf calls id :=
  (filterMap_set (Call.acceptance? id) hcall call').1.resolve_right (not_not_intro h)

theorem auditOf_snoc (invitations : SqlTable InvitationRow.column) (db : D1) (row : OrgAuditRow) (id : InviteId) :
    auditOf ⟨invitations, db.orgAuditEvents ++ [row]⟩ id =
      auditOf db id ++ if row.payload.inviteId = id then [row] else [] := by
  unfold auditOf
  rw [List.filter_append, List.filter_singleton]
  simp

theorem auditOf_snoc_self {invitations : SqlTable InvitationRow.column} {db : D1} {row : OrgAuditRow} {id : InviteId}
    (h : row.payload.inviteId = id) :
    auditOf ⟨invitations, db.orgAuditEvents ++ [row]⟩ id = auditOf db id ++ [row] := by
  rw [auditOf_snoc, if_pos h]

theorem auditOf_snoc_ne {invitations : SqlTable InvitationRow.column} {db : D1} {row : OrgAuditRow} {id : InviteId}
    (h : row.payload.inviteId ≠ id) : auditOf ⟨invitations, db.orgAuditEvents ++ [row]⟩ id = auditOf db id := by
  rw [auditOf_snoc, if_neg h, List.append_nil]

theorem Story.accept {row : InvitationRow} {audit : List OrgAuditRow} {input : InviteAcceptInput} {nowMs : Int}
    {accepted : OrgAuditRow} {accs accs' : List InviteAcceptance} (h : Story (some row) audit accs)
    (hstatus : row.status = .pending) (hexpiry : nowMs < row.expiresAt) (haccepted : Records row .accepted accepted)
    (haccs : accs = [] → accs' = [input.acceptance nowMs]) :
    Story (some (acceptedRow input nowMs row)) (audit ++ [accepted]) accs' := by
  cases h with
  | pending _ _ hcreated =>
    rw [haccs rfl]
    exact .accepted (.inl rfl) rfl hexpiry ⟨hcreated.event, hcreated.project⟩ ⟨haccepted.event, haccepted.project⟩
  | accepted h => rw [hstatus] at h; simp at h
  | revoked h => rw [hstatus] at h; cases h
  | revokedAccepted h => rw [hstatus] at h; cases h

theorem Story.unaccepted {row : InvitationRow} {audit : List OrgAuditRow} {accs : List InviteAcceptance}
    (h : Story (some row) audit accs) (hstatus : row.status = .pending) : row.Unaccepted := by
  cases h with
  | pending _ hunaccepted => exact hunaccepted
  | accepted h => rw [hstatus] at h; simp at h
  | revoked h => rw [hstatus] at h; cases h
  | revokedAccepted h => rw [hstatus] at h; cases h

theorem Story.revoke {row : InvitationRow} {audit : List OrgAuditRow} {revoked : OrgAuditRow}
    {accs : List InviteAcceptance} (h : Story (some row) audit accs)
    (hstatus : row.status = .pending ∨ row.status = .accepted) (hrevoked : Records row .revoked revoked) :
    Story (some (row.withStatus .revoked)) (audit ++ [revoked]) accs := by
  have hrow : ∀ event audit, Records row event audit → Records (row.withStatus .revoked) event audit :=
    fun _ _ h => ⟨h.event, h.project⟩
  cases h with
  | pending _ hunaccepted hcreated =>
    obtain ⟨h1, h2, h3, h4, h5, h6⟩ := hunaccepted
    exact .revoked rfl ⟨h1, h2, h3, h4, h5, h6⟩ (hrow _ _ hcreated) (hrow _ _ hrevoked)
  | accepted _ hacceptance hexpiry hcreated haccepted =>
    exact .revokedAccepted rfl hacceptance hexpiry (hrow _ _ hcreated) (hrow _ _ haccepted) (hrow _ _ hrevoked)
  | revoked h => rw [h] at hstatus; simp at hstatus
  | revokedAccepted h => rw [h] at hstatus; simp at hstatus

theorem Story.complete {row : InvitationRow} {audit : List OrgAuditRow} {accs : List InviteAcceptance}
    (h : Story (some row) audit accs) (hstatus : row.status = .accepted) :
    Story (some (row.withStatus .completed)) audit accs := by
  cases h with
  | pending h => rw [hstatus] at h; cases h
  | accepted _ hacceptance hexpiry hcreated haccepted =>
    exact .accepted (.inr rfl) hacceptance hexpiry ⟨hcreated.event, hcreated.project⟩ ⟨haccepted.event, haccepted.project⟩
  | revoked h => rw [hstatus] at h; cases h
  | revokedAccepted h => rw [hstatus] at h; cases h

theorem Effect.story (h : Effect db call db' call') (hcall : calls[index]? = some call)
    (hstory : Story (db.row? id) (auditOf db id) (acceptancesOf calls id)) :
    Story (db'.row? id) (auditOf db' id) (acceptancesOf (calls.set index call') id) := by
  cases h with
  | quiet _ hquiet =>
    rw [acceptancesOf_set hcall (hquiet id)]
    exact hstory
  | issued input actor hop hfree hpending hwindow =>
    rw [acceptancesOf_set hcall (by rw [hop]; rfl), row?_insert]
    by_cases hid : id = input.id
    · subst hid
      have hnone : db.row? input.id = none := row?_of_free hfree
      rw [hnone] at hstory
      rw [if_pos rfl, auditOf_snoc_self]
      · generalize auditOf db input.id = audit, acceptancesOf calls input.id = accs at hstory ⊢
        cases hstory
        exact .pending rfl ⟨rfl, rfl, rfl, rfl, rfl, rfl⟩ ⟨rfl, rfl⟩
      · rfl
    · rw [if_neg hid, auditOf_snoc_ne]
      · exact hstory
      · exact Ne.symm hid
  | accepted input actor row hop hrow hstatus hexpiry =>
    have hnames : ∀ r, acceptable input.inviteId call.nowMs r = true → r.id = input.inviteId := fun r hr => by
      simp only [acceptable, Bool.and_eq_true, decide_eq_true_eq] at hr
      exact hr.1.1
    by_cases hid : input.inviteId = id
    · subst hid
      have hacceptable : acceptable input.inviteId call.nowMs row = true := by
        simp only [acceptable, Bool.and_eq_true, decide_eq_true_eq]
        exact ⟨⟨(SqlTable.find?_eq_some.mp hrow).2, hstatus⟩, hexpiry⟩
      have hanswer : (call.answer (.cas true)).acceptance? input.inviteId = some (input.acceptance call.nowMs) := by
        rw [hop]
        exact if_pos rfl
      have hone := (filterMap_set (Call.acceptance? input.inviteId) hcall (call.answer (.cas true))).2
      rw [hanswer] at hone
      rw [row?_update, hrow, Option.map_some, if_pos hacceptable, auditOf_snoc_self]
      · rw [hrow] at hstory
        exact hstory.accept hstatus hexpiry ⟨rfl, rfl⟩ hone
      · rfl
    · have hother : (call.answer (.cas true)).acceptance? id = call.acceptance? id := by
        rw [hop]
        exact if_neg hid
      rw [acceptancesOf_set hcall hother, row?_update_of_ne db _ hnames _ hid, auditOf_snoc_ne]
      · exact hstory
      · exact hid
  | revoked projectId target role actor row hop hrow hproject hstatus =>
    rw [acceptancesOf_set hcall (by rw [hop]; rfl)]
    have hnames : ∀ r, revocable projectId target r = true → r.id = target := fun r hr => by
      simp only [revocable, Bool.and_eq_true, decide_eq_true_eq] at hr
      exact hr.1.1
    by_cases hid : target = id
    · subst hid
      have hrevocable : revocable projectId target row = true := by
        simp only [revocable, Bool.and_eq_true, Bool.or_eq_true, decide_eq_true_eq]
        exact ⟨⟨(SqlTable.find?_eq_some.mp hrow).2, hproject⟩, hstatus⟩
      rw [row?_update, hrow, Option.map_some, if_pos hrevocable, auditOf_snoc_self]
      · rw [hrow] at hstory
        exact hstory.revoke hstatus ⟨rfl, rfl⟩
      · rfl
    · rw [row?_update_of_ne db _ hnames _ hid, auditOf_snoc_ne]
      · exact hstory
      · exact hid
  | completed target hop =>
    rw [acceptancesOf_set hcall (by rw [hop]; rfl)]
    unfold completeAccepted
    rw [row?_update]
    show Story _ (auditOf db id) _
    cases hrow : db.row? id with
    | none =>
      rw [hrow] at hstory
      exact hstory
    | some row =>
      rw [hrow] at hstory
      rw [Option.map_some]
      split_ifs with hcompletable
      · simp only [completable, Bool.and_eq_true, decide_eq_true_eq] at hcompletable
        exact hstory.complete hcompletable.1.1.2
      · exact hstory

end Step

/-! ## The two caps -/

section Caps
variable {db db' : D1} {call call' : Call} {projectId : ProjectId}

def issueTimes (invitations : SqlTable InvitationRow.column) (projectId : ProjectId) : List Int :=
  (invitations.rows.filter fun row => row.projectId = projectId).map InvitationRow.createdAt

/-- The creations of a project in a window, its two ends included. -/
def issuedBetween (projectId : ProjectId) (startMs endMs : Int) (row : InvitationRow) : Bool :=
  row.projectId = projectId && (startMs ≤ row.createdAt && row.createdAt ≤ endMs)

theorem count_issuedBetween (invitations : SqlTable InvitationRow.column) (projectId : ProjectId) (startMs width : Int) :
    invitations.count (issuedBetween projectId startMs (startMs + width)) =
      Lookback.inWindow width startMs (issueTimes invitations projectId) := by
  unfold Lookback.inWindow issueTimes SqlTable.count
  rw [List.countP_map, List.countP_filter]
  refine List.countP_congr fun row _ => ?_
  simp only [issuedBetween, Function.comp_apply, Bool.and_eq_true, decide_eq_true_eq]
  tauto

theorem count_issuedSince (invitations : SqlTable InvitationRow.column) (projectId : ProjectId) (nowMs width : Int) :
    invitations.count (issuedSince projectId (nowMs - width)) =
      Lookback.counted width nowMs (issueTimes invitations projectId) := by
  unfold Lookback.counted issueTimes SqlTable.count
  rw [List.countP_map, List.countP_filter]
  refine List.countP_congr fun row _ => ?_
  simp only [issuedSince, Function.comp_apply, Bool.and_eq_true, decide_eq_true_eq]
  tauto

theorem issueTimes_insert (db : D1) {input : InviteCreateInput} {nowMs : Int}
    (h : ∀ column, db.invitations.taken (issuedRow input nowMs) column = false) (projectId : ProjectId) :
    issueTimes (db.invitations.insert (issuedRow input nowMs) h) projectId =
      issueTimes db.invitations projectId ++ if input.projectId = projectId then [nowMs] else [] := by
  unfold issueTimes SqlTable.insert
  rw [List.filter_append, List.filter_singleton, List.map_append]
  by_cases hproject : input.projectId = projectId <;> simp [issuedRow, hproject]

theorem issueTimes_update (invitations : SqlTable InvitationRow.column) (p : InvitationRow → Bool)
    {f : InvitationRow → InvitationRow} (hf : ∀ column row, (f row).column column = row.column column)
    (hproject : ∀ row, (f row).projectId = row.projectId) (hcreated : ∀ row, (f row).createdAt = row.createdAt)
    (projectId : ProjectId) : issueTimes (invitations.update p f hf) projectId = issueTimes invitations projectId := by
  unfold issueTimes SqlTable.update
  rw [List.filter_map, List.map_map]
  have hsame : ((fun row : InvitationRow => decide (row.projectId = projectId)) ∘ fun row => if p row then f row else row) =
      fun row => decide (row.projectId = projectId) := by
    funext row
    simp only [Function.comp_apply]
    split_ifs
    · rw [hproject]
    · rfl
  rw [hsame]
  refine List.map_congr_left fun row _ => ?_
  simp only [Function.comp_apply]
  split_ifs
  · exact hcreated row
  · rfl

/-- One request keeps every window within the limit, whatever its clock read. -/
theorem Effect.window (h : Effect db call db' call') (startMs : Int)
    (hdb : Lookback.inWindow inviteIssueWindowMs startMs (issueTimes db.invitations projectId) ≤ inviteIssueWindowLimit) :
    Lookback.inWindow inviteIssueWindowMs startMs (issueTimes db'.invitations projectId) ≤ inviteIssueWindowLimit := by
  cases h with
  | quiet => exact hdb
  | issued input actor hop hfree hpending hwindow =>
    rw [issueTimes_insert]
    split_ifs with hproject
    · subst hproject
      refine Lookback.inWindow_snoc hdb ?_
      rw [← count_issuedSince]
      exact of_decide_eq_true hwindow
    · rw [List.append_nil]
      exact hdb
  | accepted input actor row hop hrow hstatus hexpiry =>
    rw [issueTimes_update]
    · exact hdb
    · exact fun _ => rfl
    · exact fun _ => rfl
  | revoked target id role actor row hop hrow hproject hstatus =>
    rw [issueTimes_update]
    · exact hdb
    · exact fun _ => rfl
    · exact fun _ => rfl
  | completed target hop =>
    unfold completeAccepted
    rw [issueTimes_update]
    · exact hdb
    · exact fun _ => rfl
    · exact fun _ => rfl

theorem count_unexpired_mono (invitations : SqlTable InvitationRow.column) (projectId : ProjectId) {nowMs laterMs : Int}
    (h : nowMs ≤ laterMs) : invitations.count (unexpired projectId laterMs) ≤ invitations.count (unexpired projectId nowMs) := by
  refine List.countP_mono_left fun row _ hrow => ?_
  simp only [unexpired, Bool.and_eq_true, decide_eq_true_eq] at hrow ⊢
  exact ⟨hrow.1, lt_of_le_of_lt h hrow.2⟩

theorem count_unexpired_update (invitations : SqlTable InvitationRow.column) (p : InvitationRow → Bool)
    {f : InvitationRow → InvitationRow} (hf : ∀ column row, (f row).column column = row.column column)
    (hstatus : ∀ row, (f row).status ≠ .pending) (projectId : ProjectId) (nowMs : Int) :
    (invitations.update p f hf).count (unexpired projectId nowMs) ≤ invitations.count (unexpired projectId nowMs) := by
  refine SqlTable.count_update_le _ _ fun row _ hrow => ?_
  simp only [unexpired, Bool.and_eq_true, decide_eq_true_eq] at hrow
  exact absurd hrow.1.2 (hstatus row)

theorem Effect.pending (h : Effect db call db' call') {clock : Int} (hclock : call.nowMs ≤ clock)
    (hdb : db.invitations.count (unexpired projectId clock) ≤ maxPendingInvitesPerProject) :
    db'.invitations.count (unexpired projectId clock) ≤ maxPendingInvitesPerProject := by
  cases h with
  | quiet => exact hdb
  | issued input actor hop hfree hpending hwindow =>
    by_cases hproject : input.projectId = projectId
    · subst hproject
      have hlt : db.invitations.count (unexpired input.projectId call.nowMs) < maxPendingInvitesPerProject :=
        of_decide_eq_true hpending
      have hmono := count_unexpired_mono db.invitations input.projectId hclock
      rw [SqlTable.count_insert]
      split_ifs <;> omega
    · have hother : unexpired projectId clock (issuedRow input call.nowMs) = false := by
        simp [unexpired, issuedRow, hproject]
      rw [SqlTable.count_insert, hother]
      exact hdb
  | accepted input actor row hop hrow hstatus hexpiry =>
    exact (count_unexpired_update _ _ (acceptedRow_column input call.nowMs) (fun _ h => by cases h) _ _).trans hdb
  | revoked target id role actor row hop hrow hproject hstatus =>
    exact (count_unexpired_update _ _ (withStatus_column .revoked) (fun _ h => by cases h) _ _).trans hdb
  | completed target hop =>
    exact (count_unexpired_update _ _ (withStatus_column .completed) (fun _ h => by cases h) _ _).trans hdb

end Caps

/-! ## Runs -/

section Runs
variable {s : System} {start : Int} {actions : List Action}

theorem step_cases (s : System) (action : Action) :
    (∃ nowMs, action = .tick nowMs ∧ step s action = { s with clock := nowMs }) ∨
    (∃ operation, step s action = { s with calls := s.calls ++ [⟨operation, s.clock, .begins⟩] }) ∨
    step s action = s ∨
    ∃ index call db call', s.calls[index]? = some call ∧ Effect s.db call db call' ∧
      step s action = { s with db, calls := s.calls.set index call' } := by
  cases action with
  | tick nowMs => exact .inl ⟨nowMs, rfl, rfl⟩
  | call operation => exact .inr (.inl ⟨operation, rfl⟩)
  | request index first =>
    cases hcall : s.calls[index]? with
    | none =>
      refine .inr (.inr (.inl ?_))
      simp only [step, hcall]
    | some call =>
      refine .inr (.inr (.inr ⟨index, call, _, _, hcall, advance_effect s.db call first, ?_⟩))
      simp only [step, hcall]

theorem step_moves (s : System) (action : Action) (id : InviteId) : Moves (s.db.row? id) ((step s action).db.row? id) := by
  rcases step_cases s action with ⟨nowMs, -, h⟩ | ⟨operation, h⟩ | h | ⟨index, call, db, call', -, heffect, h⟩
  · rw [h]
    exact .stays _
  · rw [h]
    exact .stays _
  · rw [h]
    exact .stays _
  · rw [h]
    exact heffect.moves id

theorem story_run (start : Int) (actions : List Action) (id : InviteId) :
    Story ((run start actions).db.row? id) (auditOf (run start actions).db id) (acceptancesOf (run start actions).calls id) := by
  induction actions using List.reverseRecOn with
  | nil => exact .absent
  | append_singleton actions action ih =>
    rw [run_snoc]
    rcases step_cases (run start actions) action with
      ⟨nowMs, -, h⟩ | ⟨operation, h⟩ | h | ⟨index, call, db, call', hcall, heffect, h⟩
    · rw [h]
      exact ih
    · have hcalls : acceptancesOf ((run start actions).calls ++ [⟨operation, (run start actions).clock, .begins⟩]) id =
          acceptancesOf (run start actions).calls id := by
        unfold acceptancesOf
        rw [List.filterMap_append, List.filterMap_cons, acceptance?_of_progress (by intro h; cases h)]
        exact List.append_nil _
      rw [h]
      dsimp only
      rw [hcalls]
      exact ih
    · rw [h]
      exact ih
    · rw [h]
      exact heffect.story hcall ih

theorem window_run (start : Int) (actions : List Action) (projectId : ProjectId) (startMs : Int) :
    Lookback.inWindow inviteIssueWindowMs startMs (issueTimes (run start actions).db.invitations projectId) ≤
      inviteIssueWindowLimit := by
  induction actions using List.reverseRecOn with
  | nil => exact Nat.zero_le _
  | append_singleton actions action ih =>
    rw [run_snoc]
    rcases step_cases (run start actions) action with
      ⟨nowMs, -, h⟩ | ⟨operation, h⟩ | h | ⟨index, call, db, call', hcall, heffect, h⟩
    · rw [h]
      exact ih
    · rw [h]
      exact ih
    · rw [h]
      exact ih
    · rw [h]
      exact heffect.window startMs ih

/-- Each call of the system read a clock that is not ahead, and the cap holds at the clock. -/
structure Capped (s : System) : Prop where
  calls : ∀ call ∈ s.calls, call.nowMs ≤ s.clock
  pending : ∀ projectId, s.db.invitations.count (unexpired projectId s.clock) ≤ maxPendingInvitesPerProject

theorem mem_ticks (start : Int) (actions : List Action) :
    (run start actions).clock ∈ start :: actions.filterMap tick? := by
  induction actions using List.reverseRecOn with
  | nil => exact List.mem_cons_self
  | append_singleton actions action ih =>
    rw [run_snoc, List.filterMap_append, ← List.cons_append]
    rcases step_cases (run start actions) action with ⟨nowMs, rfl, h⟩ | ⟨operation, h⟩ | h | ⟨_, _, _, _, -, -, h⟩
    · rw [h]
      exact List.mem_append_right _ (List.mem_singleton_self nowMs)
    all_goals
      rw [h]
      exact List.mem_append_left _ ih

theorem Forward.before {action : Action} (h : Forward start (actions ++ [action])) : Forward start actions := by
  unfold Forward at h ⊢
  rw [List.filterMap_append, ← List.cons_append] at h
  exact (List.pairwise_append.mp h).1

theorem Forward.tick {nowMs : Int} (h : Forward start (actions ++ [.tick nowMs])) : (run start actions).clock ≤ nowMs := by
  unfold Forward at h
  rw [List.filterMap_append, ← List.cons_append] at h
  exact (List.pairwise_append.mp h).2.2 _ (mem_ticks start actions) nowMs (List.mem_singleton_self nowMs)

theorem capped_run (h : Forward start actions) : Capped (run start actions) := by
  induction actions using List.reverseRecOn with
  | nil => exact ⟨fun _ hm => (List.not_mem_nil hm).elim, fun _ => Nat.zero_le _⟩
  | append_singleton actions action ih =>
    obtain ⟨hcalls, hpending⟩ := ih h.before
    rw [run_snoc]
    rcases step_cases (run start actions) action with
      ⟨nowMs, rfl, hstep⟩ | ⟨operation, hstep⟩ | hstep | ⟨index, call, db, call', hcall, heffect, hstep⟩
    · have hle := h.tick
      rw [hstep]
      refine ⟨fun call hm => (hcalls call hm).trans hle, fun projectId => ?_⟩
      exact (count_unexpired_mono _ projectId hle).trans (hpending projectId)
    · rw [hstep]
      refine ⟨fun call hm => ?_, hpending⟩
      rcases List.mem_append.mp hm with hm | hm
      · exact hcalls call hm
      · rw [List.mem_singleton.mp hm]
    · rw [hstep]
      exact ⟨hcalls, hpending⟩
    · have hclock := hcalls call (List.mem_of_getElem? hcall)
      rw [hstep]
      refine ⟨fun other hm => ?_, fun projectId => heffect.pending hclock (hpending projectId)⟩
      rcases List.mem_or_eq_of_mem_set hm with hm | rfl
      · exact hcalls other hm
      · rw [heffect.nowMs]
        exact hclock

theorem run_append_snoc (start : Int) (actions more : List Action) (action : Action) :
    run start (actions ++ (more ++ [action])) = step (run start (actions ++ more)) action := by
  rw [← List.append_assoc, run_snoc]

theorem acceptance_kept {id : InviteId} {acceptance : InviteAcceptance}
    (h : ((run start actions).db.row? id).bind acceptanceOf = some acceptance) (more : List Action) :
    ((run start (actions ++ more)).db.row? id).bind acceptanceOf = some acceptance := by
  induction more using List.reverseRecOn with
  | nil => rwa [List.append_nil]
  | append_singleton more action ih =>
    rw [run_append_snoc]
    refine (step_moves _ action id).keeps ih fun r hr => ?_
    have hstory := story_run start (actions ++ more) id
    rw [hr] at hstory
    exact hstory.unaccepted

end Runs

/-- What the store, the audit log and the callers hold after a run. -/
structure InviteLifeCycle (start : Int) (actions : List Action) (s : System) : Prop where
  moves : ∀ action id, Moves (s.db.row? id) ((step s action).db.row? id)
  acceptedOnce : ∀ id, (acceptancesOf s.calls id).length ≤ 1
  unexpired : ∀ row ∈ s.db.invitations.rows, ∀ acceptance ∈ acceptancesOf s.calls row.id,
    acceptance.acceptedAtMs < row.expiresAt
  columns : ∀ row ∈ s.db.invitations.rows,
    row.Unaccepted ∧ acceptancesOf s.calls row.id = [] ∨
    ∃ acceptance, acceptanceOf row = some acceptance ∧ acceptancesOf s.calls row.id = [acceptance]
  columnsKept : ∀ row ∈ s.db.invitations.rows, ∀ acceptance, acceptanceOf row = some acceptance → ∀ more, ∃ later,
    (run start (actions ++ more)).db.row? row.id = some later ∧ acceptanceOf later = some acceptance
  createdRows : ∀ id, (auditOf s.db id).countP (fun audit => audit.payload.event = .created) =
    if (s.db.row? id).isSome then 1 else 0
  acceptedRows : ∀ id, (auditOf s.db id).countP (fun audit => audit.payload.event = .accepted) =
    (acceptancesOf s.calls id).length
  revokedRows : ∀ id, (auditOf s.db id).countP (fun audit => audit.payload.event = .revoked) =
    if (s.db.row? id).any (fun row => row.status = .revoked) then 1 else 0
  projects : ∀ audit ∈ s.db.orgAuditEvents, ∃ row, s.db.row? audit.payload.inviteId = some row ∧
    audit.projectId = row.projectId
  issueWindow : ∀ projectId startMs,
    s.db.invitations.count (issuedBetween projectId startMs (startMs + inviteIssueWindowMs)) ≤ inviteIssueWindowLimit
  pendingCap : Forward start actions → ∀ projectId,
    s.db.invitations.count (Invites.unexpired projectId s.clock) ≤ maxPendingInvitesPerProject

theorem Story.project {row : Option InvitationRow} {audit : List OrgAuditRow} {accs : List InviteAcceptance}
    (h : Story row audit accs) {entry : OrgAuditRow} (hm : entry ∈ audit) :
    ∃ r, row = some r ∧ entry.projectId = r.projectId := by
  cases h with
  | absent => cases hm
  | pending _ _ hcreated =>
    rw [List.mem_singleton] at hm
    exact ⟨_, rfl, hm ▸ hcreated.project⟩
  | accepted _ _ _ hcreated haccepted =>
    simp only [List.mem_cons, List.not_mem_nil, or_false] at hm
    rcases hm with rfl | rfl
    · exact ⟨_, rfl, hcreated.project⟩
    · exact ⟨_, rfl, haccepted.project⟩
  | revoked _ _ hcreated hrevoked =>
    simp only [List.mem_cons, List.not_mem_nil, or_false] at hm
    rcases hm with rfl | rfl
    · exact ⟨_, rfl, hcreated.project⟩
    · exact ⟨_, rfl, hrevoked.project⟩
  | revokedAccepted _ _ _ hcreated haccepted hrevoked =>
    simp only [List.mem_cons, List.not_mem_nil, or_false] at hm
    rcases hm with rfl | rfl | rfl
    · exact ⟨_, rfl, hcreated.project⟩
    · exact ⟨_, rfl, haccepted.project⟩
    · exact ⟨_, rfl, hrevoked.project⟩

theorem Story.columns {row : InvitationRow} {audit : List OrgAuditRow} {accs : List InviteAcceptance}
    (h : Story (some row) audit accs) :
    row.Unaccepted ∧ accs = [] ∨
    ∃ acceptance, acceptanceOf row = some acceptance ∧ accs = [acceptance] ∧ acceptance.acceptedAtMs < row.expiresAt := by
  cases h with
  | pending _ hrow => exact .inl ⟨hrow, rfl⟩
  | accepted _ hrow hexpiry => exact .inr ⟨_, hrow, rfl, hexpiry⟩
  | revoked _ hrow => exact .inl ⟨hrow, rfl⟩
  | revokedAccepted _ hrow hexpiry => exact .inr ⟨_, hrow, rfl, hexpiry⟩

theorem Story.counts {row : Option InvitationRow} {audit : List OrgAuditRow} {accs : List InviteAcceptance}
    (h : Story row audit accs) :
    audit.countP (fun entry => entry.payload.event = .created) = (if row.isSome then 1 else 0) ∧
    audit.countP (fun entry => entry.payload.event = .accepted) = accs.length ∧
    audit.countP (fun entry => entry.payload.event = .revoked) =
      if row.any (fun r => r.status = .revoked) then 1 else 0 := by
  cases h with
  | absent => exact ⟨rfl, rfl, rfl⟩
  | pending hstatus _ hcreated => simp [hcreated.event, hstatus]
  | accepted hstatus _ _ hcreated haccepted =>
    rcases hstatus with hstatus | hstatus <;> simp [hcreated.event, haccepted.event, hstatus]
  | revoked hstatus _ hcreated hrevoked => simp [hcreated.event, hrevoked.event, hstatus]
  | revokedAccepted hstatus _ _ hcreated haccepted hrevoked =>
    simp [hcreated.event, haccepted.event, hrevoked.event, hstatus]

/-- **The life cycle of an invitation, under every interleaving.** -/
theorem invite_life_cycle (start : Int) (actions : List Action) :
    InviteLifeCycle start actions (run start actions) := by
  have hstory := story_run start actions
  have hfound : ∀ row ∈ (run start actions).db.invitations.rows, (run start actions).db.row? row.id = some row :=
    fun row hm => SqlTable.find?_eq_some.mpr ⟨hm, rfl⟩
  have hcolumns : ∀ row ∈ (run start actions).db.invitations.rows, _ := fun row hm => by
    have h := hstory row.id
    rw [hfound row hm] at h
    exact h.columns
  refine {
    moves := step_moves _
    acceptedOnce := fun id => ?_
    unexpired := fun row hm acceptance hacceptance => ?_
    columns := fun row hm => ?_
    columnsKept := fun row hm acceptance hacceptance more => ?_
    createdRows := fun id => (hstory id).counts.1
    acceptedRows := fun id => (hstory id).counts.2.1
    revokedRows := fun id => (hstory id).counts.2.2
    projects := fun audit hm => ?_
    issueWindow := fun projectId startMs => ?_
    pendingCap := fun h => (capped_run h).pending }
  · have h := hstory id
    cases hrow : (run start actions).db.row? id with
    | none =>
      rw [hrow] at h
      generalize auditOf (run start actions).db id = audit, acceptancesOf (run start actions).calls id = accs at h ⊢
      cases h
      exact Nat.zero_le 1
    | some row =>
      rw [hrow] at h
      rcases h.columns with ⟨-, hnone⟩ | ⟨_, -, hone, -⟩
      · rw [hnone]
        exact Nat.zero_le 1
      · rw [hone]
        exact le_refl 1
  · rcases hcolumns row hm with ⟨-, hnone⟩ | ⟨_, -, hone, hexpiry⟩
    · rw [hnone] at hacceptance
      cases hacceptance
    · rw [hone, List.mem_singleton] at hacceptance
      rw [hacceptance]
      exact hexpiry
  · rcases hcolumns row hm with ⟨hrow, hnone⟩ | ⟨acceptance, hrow, hone, -⟩
    · exact .inl ⟨hrow, hnone⟩
    · exact .inr ⟨acceptance, hrow, hone⟩
  · have hkept := acceptance_kept (by rw [hfound row hm]; exact hacceptance) more
    exact Option.bind_eq_some_iff.mp hkept
  · exact (hstory audit.payload.inviteId).project (List.mem_filter.mpr ⟨hm, decide_eq_true rfl⟩)
  · rw [count_issuedBetween]
    exact window_run start actions projectId startMs

end Maruhi.Invites
