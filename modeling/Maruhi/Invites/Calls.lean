import Maruhi.Invites.Repo
import Mathlib.Data.List.Induction

/-!
# Calls of the invitation repository in flight

A call reads its clock once and then sends its requests to the database one by one, with the requests of other
calls in between.
-/

namespace Maruhi.Invites
open Chain (UserId)

inductive Operation
  | create (input : InviteCreateInput) (actor : D1AuditActor)
  | acceptCas (input : InviteAcceptInput) (actor : D1AuditActor)
  | revokeCas (projectId : ProjectId) (id : InviteId) (role : InviteRole) (actor : D1AuditActor)
  | completeAccepted (target : InviteCompletionTarget)
  deriving DecidableEq

inductive Answer
  | issue (decision : InviteIssueDecision)
  | cas (won : Bool)
  | done
  deriving DecidableEq

/-- What a call does next. -/
inductive Progress
  | begins
  | inserts
  | countsPending
  | countsWindow
  | answered (answer : Answer)
  deriving DecidableEq

structure Call where
  operation : Operation
  nowMs : Int
  progress : Progress
  deriving DecidableEq

def Call.at (call : Call) (progress : Progress) : Call := { call with progress }

def Call.answer (call : Call) (answer : Answer) : Call := call.at (.answered answer)

/-- One request of a call; `first` is the unique column the store names where both refuse. -/
def advance (db : D1) (call : Call) (first : UniqueColumn) : D1 × Call :=
  match call.operation, call.progress with
  | .create input _, .begins =>
    match existingConflict db.invitations input with
    | some field => (db, call.answer (.issue (.conflict field)))
    | none => (db, call.at .inserts)
  | .create input actor, .inserts =>
    match issueBatch db input call.nowMs actor first with
    | .error field => (db, call.answer (.issue (.conflict field)))
    | .ok (db', true) => (db', call.answer (.issue .created))
    | .ok (db', false) => (db', call.at .countsPending)
  | .create input _, .countsPending =>
    match pendingRejection db.invitations input.projectId call.nowMs with
    | some rejection => (db, call.answer (.issue rejection))
    | none => (db, call.at .countsWindow)
  | .create input _, .countsWindow =>
    (db, call.answer (.issue (explained (windowRejection db.invitations input.projectId call.nowMs))))
  | .acceptCas input actor, .begins =>
    let (db', won) := acceptCas db input call.nowMs actor
    (db', call.answer (.cas won))
  | .revokeCas projectId id role actor, .begins =>
    let (db', won) := revokeCas db projectId id role call.nowMs actor
    (db', call.answer (.cas won))
  | .completeAccepted target, .begins => (completeAccepted db target, call.answer .done)
  | _, _ => (db, call)

structure System where
  db : D1
  clock : Int
  calls : List Call

inductive Action
  | tick (nowMs : Int)
  | call (operation : Operation)
  | request (index : Nat) (first : UniqueColumn)

def step (s : System) : Action → System
  | .tick nowMs => { s with clock := nowMs }
  | .call operation => { s with calls := s.calls ++ [⟨operation, s.clock, .begins⟩] }
  | .request index first =>
    match s.calls[index]? with
    | none => s
    | some call =>
      let (db, call') := advance s.db call first
      { s with db, calls := s.calls.set index call' }

def init (start : Int) : System := ⟨⟨.empty, []⟩, start, []⟩

def run (start : Int) (actions : List Action) : System := actions.foldl step (init start)

@[simp] theorem run_nil (start : Int) : run start [] = init start := rfl

@[simp] theorem run_snoc (start : Int) (actions : List Action) (action : Action) :
    run start (actions ++ [action]) = step (run start actions) action := by
  unfold run
  rw [List.foldl_append, List.foldl_cons, List.foldl_nil]

def tick? : Action → Option Int
  | .tick nowMs => some nowMs
  | _ => none

/-- The clock never goes back. -/
def Forward (start : Int) (actions : List Action) : Prop := (start :: actions.filterMap tick?).Pairwise (· ≤ ·)

/-! ## What one request can do -/

/-- The acceptance of the invitation that a call has answered with. -/
def Call.acceptance? (id : InviteId) (call : Call) : Option InviteAcceptance :=
  match call.operation, call.progress with
  | .acceptCas input _, .answered (.cas true) =>
    if input.inviteId = id then some (input.acceptance call.nowMs) else none
  | _, _ => none

theorem acceptance?_of_progress {id : InviteId} {call : Call} (h : call.progress ≠ .answered (.cas true)) :
    call.acceptance? id = none := by
  unfold Call.acceptance?
  split
  · rename_i heq
    exact absurd heq h
  · rfl

theorem acceptance?_of_operation {id : InviteId} {call : Call} (h : ∀ input actor, call.operation ≠ .acceptCas input actor) :
    call.acceptance? id = none := by
  unfold Call.acceptance?
  split
  · rename_i input actor heq _
    exact absurd heq (h input actor)
  · rfl

/-- The row of the audit log that goes with a changed invitation. -/
def auditRow (projectId : ProjectId) (actor : D1AuditActor) (targetUserId : Option UserId) (payload : InviteAuditPayload)
    (nowMs : Int) : OrgAuditRow where
  serverTs := nowMs
  actorUserId := actor.userId
  actorApiTokenId := actor.apiTokenId
  targetUserId := targetUserId
  projectId := projectId
  authMethod := actor.authMethod
  payload := payload

theorem guardedAuditInsert_one {invitations : SqlTable InvitationRow.column} {actor : D1AuditActor}
    {targetUserId : Option UserId} {payload : InviteAuditPayload} {nowMs : Int} {row : InvitationRow}
    (h : invitations.find? .id payload.inviteId = some row) :
    guardedAuditInsert invitations 1 actor targetUserId payload nowMs =
      [auditRow row.projectId actor targetUserId payload nowMs] := by
  have hone := invitations.filter_col .id payload.inviteId
  rw [h, Option.toList_some] at hone
  unfold guardedAuditInsert
  simp only [decide_true, Bool.and_true]
  rw [show (fun row : InvitationRow => decide (row.id = payload.inviteId)) =
    fun row => decide (InvitationRow.column .id row = payload.inviteId) from rfl, hone]
  rfl

theorem guardedAuditInsert_zero (invitations : SqlTable InvitationRow.column) (actor : D1AuditActor)
    (targetUserId : Option UserId) (payload : InviteAuditPayload) (nowMs : Int) :
    guardedAuditInsert invitations 0 actor targetUserId payload nowMs = [] := by
  simp [guardedAuditInsert]

/-- All that one request of a call does. -/
inductive Effect (db : D1) (call : Call) : D1 → Call → Prop
  | quiet (progress : Progress) (h : ∀ id, (call.at progress).acceptance? id = call.acceptance? id) :
      Effect db call db (call.at progress)
  | issued (input : InviteCreateInput) (actor : D1AuditActor)
      (hcall : call = ⟨.create input actor, call.nowMs, .inserts⟩)
      (hfree : ∀ column, db.invitations.taken (issuedRow input call.nowMs) column = false)
      (hpending : pendingAvailable db.invitations input.projectId call.nowMs = true)
      (hwindow : windowAvailable db.invitations input.projectId call.nowMs = true) :
      Effect db call
        ⟨db.invitations.insert (issuedRow input call.nowMs) hfree, db.orgAuditEvents ++
          [auditRow input.projectId actor none (.created input.id input.role) call.nowMs]⟩
        (call.answer (.issue .created))
  | accepted (input : InviteAcceptInput) (actor : D1AuditActor) (row : InvitationRow)
      (hcall : call = ⟨.acceptCas input actor, call.nowMs, .begins⟩)
      (hrow : db.row? input.inviteId = some row) (hstatus : row.status = .pending) (hexpiry : call.nowMs < row.expiresAt) :
      Effect db call
        ⟨db.invitations.update (acceptable input.inviteId call.nowMs) (acceptedRow input call.nowMs)
          (acceptedRow_column input call.nowMs), db.orgAuditEvents ++ [auditRow row.projectId actor
            (some input.inviteeUserId) (.accepted input.inviteId input.inviteeKeyFingerprintHex) call.nowMs]⟩
        (call.answer (.cas true))
  | revoked (projectId : ProjectId) (id : InviteId) (role : InviteRole) (actor : D1AuditActor) (row : InvitationRow)
      (hcall : call = ⟨.revokeCas projectId id role actor, call.nowMs, .begins⟩)
      (hrow : db.row? id = some row) (hproject : row.projectId = projectId)
      (hstatus : row.status = .pending ∨ row.status = .accepted) :
      Effect db call
        ⟨db.invitations.update (revocable projectId id) (InvitationRow.withStatus .revoked) (withStatus_column .revoked),
          db.orgAuditEvents ++ [auditRow row.projectId actor none (.revoked id role) call.nowMs]⟩
        (call.answer (.cas true))
  | completed (target : InviteCompletionTarget) (hcall : call = ⟨.completeAccepted target, call.nowMs, .begins⟩) :
      Effect db call (completeAccepted db target) (call.answer .done)

theorem issueBatch_effect (db : D1) (input : InviteCreateInput) (nowMs : Int) (actor : D1AuditActor)
    (first : UniqueColumn) :
    (∃ field, issueBatch db input nowMs actor first = .error field) ∨
    issueBatch db input nowMs actor first = .ok (db, false) ∨
    ∃ hfree : ∀ column, db.invitations.taken (issuedRow input nowMs) column = false,
      pendingAvailable db.invitations input.projectId nowMs = true ∧
      windowAvailable db.invitations input.projectId nowMs = true ∧
      issueBatch db input nowMs actor first = .ok (⟨db.invitations.insert (issuedRow input nowMs) hfree,
        db.orgAuditEvents ++ [auditRow input.projectId actor none (.created input.id input.role) nowMs]⟩, true) := by
  unfold issueBatch conditionalInviteInsert
  split_ifs with havailable hfree hfirst
  · refine .inr (.inr ⟨UniqueColumn.forall hfree.1 hfree.2, ?_⟩)
    rw [Bool.and_eq_true] at havailable
    refine ⟨havailable.1, havailable.2, ?_⟩
    have hfind : (db.invitations.insert (issuedRow input nowMs) (UniqueColumn.forall hfree.1 hfree.2)).find? .id input.id =
        some (issuedRow input nowMs) := by
      rw [SqlTable.find?_insert]
      exact if_pos rfl
    simp only [bind, Except.bind, pure, Except.pure]
    rw [guardedAuditInsert_one hfind]
    rfl
  · exact .inl ⟨first, rfl⟩
  · exact .inl ⟨_, rfl⟩
  · refine .inr (.inl ?_)
    simp only [bind, Except.bind, pure, Except.pure, guardedAuditInsert_zero, List.append_nil]
    rfl

theorem acceptCas_effect (db : D1) (input : InviteAcceptInput) (nowMs : Int) (actor : D1AuditActor) :
    acceptCas db input nowMs actor = (db, false) ∨
    ∃ row, db.row? input.inviteId = some row ∧ row.status = .pending ∧ nowMs < row.expiresAt ∧
      acceptCas db input nowMs actor =
        (⟨db.invitations.update (acceptable input.inviteId nowMs) (acceptedRow input nowMs) (acceptedRow_column input nowMs),
          db.orgAuditEvents ++ [auditRow row.projectId actor (some input.inviteeUserId)
            (.accepted input.inviteId input.inviteeKeyFingerprintHex) nowMs]⟩, true) := by
  have hcount := db.invitations.count_named (p := acceptable input.inviteId nowMs) (i := .id) (k := input.inviteId)
    fun row h => by
      simp only [acceptable, Bool.and_eq_true, decide_eq_true_eq] at h
      exact h.1.1
  cases hany : (db.invitations.find? .id input.inviteId).any (acceptable input.inviteId nowMs) with
  | false =>
    rw [hany, if_neg Bool.false_ne_true] at hcount
    refine .inl ?_
    unfold acceptCas
    simp only [hcount, guardedAuditInsert_zero, List.append_nil, SqlTable.update_of_count_zero _ _ hcount]
    rfl
  | true =>
    rw [hany, if_pos rfl] at hcount
    obtain ⟨row, hrow, hacceptable⟩ := (Option.any_eq_true _ _).mp hany
    have hparts := hacceptable
    simp only [acceptable, Bool.and_eq_true, decide_eq_true_eq] at hparts
    refine .inr ⟨row, hrow, hparts.1.2, hparts.2, ?_⟩
    have hfind : (db.invitations.update (acceptable input.inviteId nowMs) (acceptedRow input nowMs)
        (acceptedRow_column input nowMs)).find? .id input.inviteId = some (acceptedRow input nowMs row) := by
      rw [SqlTable.find?_update, hrow, Option.map_some, if_pos hacceptable]
    unfold acceptCas
    simp only [hcount]
    rw [guardedAuditInsert_one hfind]
    rfl

theorem revokeCas_effect (db : D1) (projectId : ProjectId) (id : InviteId) (role : InviteRole) (nowMs : Int)
    (actor : D1AuditActor) :
    revokeCas db projectId id role nowMs actor = (db, false) ∨
    ∃ row, db.row? id = some row ∧ row.projectId = projectId ∧ (row.status = .pending ∨ row.status = .accepted) ∧
      revokeCas db projectId id role nowMs actor =
        (⟨db.invitations.update (revocable projectId id) (InvitationRow.withStatus .revoked) (withStatus_column .revoked),
          db.orgAuditEvents ++ [auditRow row.projectId actor none (.revoked id role) nowMs]⟩, true) := by
  have hcount := db.invitations.count_named (p := revocable projectId id) (i := .id) (k := id) fun row h => by
    simp only [revocable, Bool.and_eq_true, decide_eq_true_eq] at h
    exact h.1.1
  cases hany : (db.invitations.find? .id id).any (revocable projectId id) with
  | false =>
    rw [hany, if_neg Bool.false_ne_true] at hcount
    refine .inl ?_
    unfold revokeCas
    simp only [hcount, guardedAuditInsert_zero, List.append_nil, SqlTable.update_of_count_zero _ _ hcount]
    rfl
  | true =>
    rw [hany, if_pos rfl] at hcount
    obtain ⟨row, hrow, hrevocable⟩ := (Option.any_eq_true _ _).mp hany
    have hparts := hrevocable
    simp only [revocable, Bool.and_eq_true, Bool.or_eq_true, decide_eq_true_eq] at hparts
    refine .inr ⟨row, hrow, hparts.1.2, hparts.2, ?_⟩
    have hfind : (db.invitations.update (revocable projectId id) (InvitationRow.withStatus .revoked)
        (withStatus_column .revoked)).find? .id id = some (row.withStatus .revoked) := by
      rw [SqlTable.find?_update, hrow, Option.map_some, if_pos hrevocable]
    unfold revokeCas
    simp only [hcount]
    rw [guardedAuditInsert_one hfind]
    rfl

theorem advance_effect (db : D1) (call : Call) (first : UniqueColumn) :
    Effect db call (advance db call first).1 (advance db call first).2 := by
  obtain ⟨operation, nowMs, progress⟩ := call
  unfold advance
  cases operation with
  | create input actor =>
    have hquiet : ∀ progress', Effect db ⟨.create input actor, nowMs, progress⟩ db
        (Call.at ⟨.create input actor, nowMs, progress⟩ progress') := fun progress' => .quiet progress' fun id => by
      rw [acceptance?_of_operation (by intro _ _ h; cases h), acceptance?_of_operation (by intro _ _ h; cases h)]
    cases progress with
    | begins =>
      dsimp only
      cases existingConflict db.invitations input <;> exact hquiet _
    | inserts =>
      dsimp only
      rcases issueBatch_effect db input nowMs actor first with ⟨field, h⟩ | h | ⟨hfree, hpending, hwindow, h⟩
      · rw [h]
        exact hquiet _
      · rw [h]
        exact hquiet _
      · rw [h]
        exact .issued input actor rfl hfree hpending hwindow
    | countsPending =>
      dsimp only
      cases pendingRejection db.invitations input.projectId nowMs <;> exact hquiet _
    | countsWindow => exact hquiet _
    | answered answer => exact hquiet (.answered answer)
  | acceptCas input actor =>
    cases progress with
    | begins =>
      dsimp only
      rcases acceptCas_effect db input nowMs actor with h | ⟨row, hrow, hstatus, hexpiry, h⟩
      · rw [h]
        exact .quiet (.answered (.cas false)) fun id => by
          rw [acceptance?_of_progress (by intro h; cases h), acceptance?_of_progress (by intro h; cases h)]
      · rw [h]
        exact .accepted input actor row rfl hrow hstatus hexpiry
    | inserts => exact .quiet .inserts fun _ => rfl
    | countsPending => exact .quiet .countsPending fun _ => rfl
    | countsWindow => exact .quiet .countsWindow fun _ => rfl
    | answered answer => exact .quiet (.answered answer) fun _ => rfl
  | revokeCas projectId id role actor =>
    cases progress with
    | begins =>
      dsimp only
      rcases revokeCas_effect db projectId id role nowMs actor with h | ⟨row, hrow, hproject, hstatus, h⟩
      · rw [h]
        exact .quiet (.answered (.cas false)) fun _ => rfl
      · rw [h]
        exact .revoked projectId id role actor row rfl hrow hproject hstatus
    | inserts => exact .quiet .inserts fun _ => rfl
    | countsPending => exact .quiet .countsPending fun _ => rfl
    | countsWindow => exact .quiet .countsWindow fun _ => rfl
    | answered answer => exact .quiet (.answered answer) fun _ => rfl
  | completeAccepted target =>
    cases progress with
    | begins => exact .completed target rfl
    | inserts => exact .quiet .inserts fun _ => rfl
    | countsPending => exact .quiet .countsPending fun _ => rfl
    | countsWindow => exact .quiet .countsWindow fun _ => rfl
    | answered answer => exact .quiet (.answered answer) fun _ => rfl

theorem Effect.nowMs {db db' : D1} {call call' : Call} (h : Effect db call db' call') : call'.nowMs = call.nowMs := by
  cases h <;> rfl

end Maruhi.Invites
