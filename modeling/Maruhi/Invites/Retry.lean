import Maruhi.Invites.LifeCycle

/-!
# What a refused issuer is told

The announced second, and the predicates of the insert that refused.
-/

open Text

namespace Maruhi.Invites

/-! ## The announced second -/

/-- What is left of the announced second when the oldest issuance of the window reaches its far end. -/
def slackMs (remainingMs : Int) : Int := if remainingMs ≤ 0 then 1000 - remainingMs else -remainingMs % 1000

theorem announced_eq (remainingMs : Int) :
    1000 * max 1 ⌈(remainingMs : Rat) / 1000⌉ = remainingMs + slackMs remainingMs := by
  have hceil : ⌈(remainingMs : Rat) / 1000⌉ = -(-remainingMs / 1000) := Rat.ceil_intCast_div_natCast remainingMs 1000
  rw [hceil]
  unfold slackMs
  split_ifs <;> omega

theorem slackMs_nonneg (remainingMs : Int) : 0 ≤ slackMs remainingMs := by
  unfold slackMs
  split_ifs <;> omega

theorem slackMs_eq_zero {remainingMs : Int} : slackMs remainingMs = 0 ↔ 0 < remainingMs ∧ 1000 ∣ remainingMs := by
  unfold slackMs
  split_ifs <;> omega

/-- The earliest creation of a project from an instant on. -/
def IsOldest (invitations : SqlTable InvitationRow.column) (projectId : ProjectId) (startMs oldest : Int) : Prop :=
  (∃ row ∈ invitations.rows, issuedSince projectId startMs row = true ∧ row.createdAt = oldest) ∧
  ∀ row ∈ invitations.rows, issuedSince projectId startMs row = true → oldest ≤ row.createdAt

theorem oldestSince_spec {invitations : SqlTable InvitationRow.column} {projectId : ProjectId} {startMs oldest : Int} :
    oldestSince invitations projectId startMs = some oldest ↔ IsOldest invitations projectId startMs oldest := by
  unfold oldestSince IsOldest
  rw [List.min?_eq_some_iff]
  simp only [List.mem_map, List.mem_filter]
  constructor
  · rintro ⟨⟨row, ⟨hm, hsince⟩, rfl⟩, hle⟩
    exact ⟨⟨row, hm, hsince, rfl⟩, fun other hother h => hle _ ⟨other, ⟨hother, h⟩, rfl⟩⟩
  · rintro ⟨⟨row, hm, hsince, rfl⟩, hle⟩
    refine ⟨⟨row, ⟨hm, hsince⟩, rfl⟩, ?_⟩
    rintro _ ⟨other, ⟨hother, h⟩, rfl⟩
    exact hle other hother h

theorem exists_oldest {invitations : SqlTable InvitationRow.column} {projectId : ProjectId} {startMs : Int}
    (h : 0 < invitations.count (issuedSince projectId startMs)) :
    ∃ oldest, oldestSince invitations projectId startMs = some oldest := by
  obtain ⟨row, hm, hsince⟩ := List.countP_pos_iff.mp h
  unfold oldestSince
  cases hmin : ((invitations.rows.filter (issuedSince projectId startMs)).map InvitationRow.createdAt).min? with
  | some oldest => exact ⟨oldest, rfl⟩
  | none =>
    rw [List.min?_eq_none_iff, List.map_eq_nil_iff] at hmin
    exact absurd (List.mem_filter.mpr ⟨hm, hsince⟩) (by rw [hmin]; exact List.not_mem_nil)

/-- A full window names the second in which its oldest issuance reaches its far end. -/
theorem windowRejection_some {invitations : SqlTable InvitationRow.column} {projectId : ProjectId} {nowMs n : Int}
    (h : windowRejection invitations projectId nowMs = some (.rateLimited n)) :
    ∃ oldest, IsOldest invitations projectId (nowMs - inviteIssueWindowMs) oldest ∧
      nowMs + 1000 * n = oldest + inviteIssueWindowMs + slackMs (oldest + inviteIssueWindowMs - nowMs) := by
  unfold windowRejection at h
  split_ifs at h with hfull
  have hpos : 0 < inviteIssueWindowLimit := by decide
  obtain ⟨oldest, holdest⟩ := exists_oldest (lt_of_lt_of_le hpos (Nat.not_lt.mp hfull))
  rw [holdest] at h
  injection h with h
  injection h with h
  subst h
  refine ⟨oldest, oldestSince_spec.mp holdest, ?_⟩
  dsimp only [Option.getD_some]
  rw [announced_eq]
  omega

theorem IsOldest.unique {invitations : SqlTable InvitationRow.column} {projectId : ProjectId} {startMs a b : Int}
    (ha : IsOldest invitations projectId startMs a) (hb : IsOldest invitations projectId startMs b) : a = b := by
  rw [← oldestSince_spec] at ha hb
  exact Option.some.inj (ha.symm.trans hb)

/-- Fewer than the limit were created past the oldest issuance by what is left of the announced second. -/
def SecondSuffices (invitations : SqlTable InvitationRow.column) (projectId : ProjectId) (nowMs : Int) : Prop :=
  ∀ oldest, IsOldest invitations projectId (nowMs - inviteIssueWindowMs) oldest →
    invitations.count (issuedSince projectId (oldest + slackMs (oldest + inviteIssueWindowMs - nowMs))) <
      inviteIssueWindowLimit

theorem windowAvailable_announced {invitations : SqlTable InvitationRow.column} {projectId : ProjectId} {nowMs n : Int}
    (h : windowRejection invitations projectId nowMs = some (.rateLimited n)) :
    windowAvailable invitations projectId (nowMs + 1000 * n) = true ↔ SecondSuffices invitations projectId nowMs := by
  obtain ⟨oldest, holdest, hlater⟩ := windowRejection_some h
  have hstart : nowMs + 1000 * n - inviteIssueWindowMs = oldest + slackMs (oldest + inviteIssueWindowMs - nowMs) := by omega
  unfold windowAvailable SecondSuffices
  rw [decide_eq_true_eq, hstart]
  constructor
  · intro hlt other hother
    rw [hother.unique holdest]
    exact hlt
  · exact fun hall => hall oldest holdest

/-- A window of exactly the limit, as the limit itself keeps it: the second suffices unless it is whole. -/
theorem secondSuffices_of_limit {invitations : SqlTable InvitationRow.column} {projectId : ProjectId} {nowMs oldest : Int}
    (hcount : invitations.count (issuedSince projectId (nowMs - inviteIssueWindowMs)) = inviteIssueWindowLimit)
    (holdest : IsOldest invitations projectId (nowMs - inviteIssueWindowMs) oldest) :
    SecondSuffices invitations projectId nowMs ↔
      ¬ (0 < oldest + inviteIssueWindowMs - nowMs ∧ 1000 ∣ oldest + inviteIssueWindowMs - nowMs) := by
  rw [← slackMs_eq_zero]
  have hnonneg := slackMs_nonneg (oldest + inviteIssueWindowMs - nowMs)
  obtain ⟨⟨row, hm, hsince, hcreated⟩, hle⟩ := holdest
  have hsub : ∀ slack : Int, 0 ≤ slack → ∀ other ∈ invitations.rows,
      issuedSince projectId (oldest + slack) other = true → issuedSince projectId (nowMs - inviteIssueWindowMs) other = true := by
    intro slack hslack other hother h
    simp only [issuedSince, Bool.and_eq_true, decide_eq_true_eq] at h hsince ⊢
    exact ⟨h.1, by omega⟩
  constructor
  · intro hsuffices hzero
    have hlt := hsuffices oldest ⟨⟨row, hm, hsince, hcreated⟩, hle⟩
    rw [hzero, ← hcount] at hlt
    refine absurd hlt (Nat.not_lt.mpr (List.countP_mono_left fun other hother h => ?_))
    have hproject := h
    simp only [issuedSince, Bool.and_eq_true, decide_eq_true_eq] at hproject ⊢
    exact ⟨hproject.1, by have := hle other hother h; omega⟩
  · intro hne other hother
    rw [hother.unique ⟨⟨row, hm, hsince, hcreated⟩, hle⟩, ← hcount]
    have hlt : 0 < slackMs (oldest + inviteIssueWindowMs - nowMs) := lt_of_le_of_ne hnonneg (Ne.symm hne)
    have hfiltered : invitations.count (issuedSince projectId (oldest + slackMs (oldest + inviteIssueWindowMs - nowMs))) =
        (invitations.rows.filter (issuedSince projectId (nowMs - inviteIssueWindowMs))).countP
          (issuedSince projectId (oldest + slackMs (oldest + inviteIssueWindowMs - nowMs))) := by
      rw [List.countP_filter]
      refine List.countP_congr fun other hother => ?_
      rw [Bool.and_eq_true]
      exact ⟨fun h => ⟨h, hsub _ hnonneg other hother h⟩, fun h => h.1⟩
    have hlength : invitations.count (issuedSince projectId (nowMs - inviteIssueWindowMs)) =
        (invitations.rows.filter (issuedSince projectId (nowMs - inviteIssueWindowMs))).length :=
      List.countP_eq_length_filter
    rw [hfiltered, hlength]
    refine List.countP_lt_length_iff.mpr ⟨row, List.mem_filter.mpr ⟨hm, hsince⟩, ?_⟩
    simp only [issuedSince, Bool.and_eq_false_iff, decide_eq_false_iff_not]
    exact .inr (by omega)

/-! ## A fresh issuance -/

/-- No stored invitation has the id or the link key. -/
def Fresh (invitations : SqlTable InvitationRow.column) (input : InviteCreateInput) : Prop :=
  ∀ row ∈ invitations.rows, row.id ≠ input.id ∧ row.linkPub ≠ input.issuance.linkPubHex

theorem issueBatch_of_unavailable {db : D1} {input : InviteCreateInput} {nowMs : Int} {actor : D1AuditActor}
    {first : UniqueColumn}
    (h : (pendingAvailable db.invitations input.projectId nowMs && windowAvailable db.invitations input.projectId nowMs) =
      false) : issueBatch db input nowMs actor first = .ok (db, false) := by
  unfold issueBatch conditionalInviteInsert
  rw [h, if_neg Bool.false_ne_true]
  simp only [bind, Except.bind, pure, Except.pure, guardedAuditInsert_zero, List.append_nil]
  rfl

theorem explained_ne_created (invitations : SqlTable InvitationRow.column) (projectId : ProjectId) (nowMs : Int) :
    explained (inviteIssueRejection invitations projectId nowMs) ≠ .created := by
  unfold explained inviteIssueRejection pendingRejection windowRejection
  split_ifs <;> simp

theorem create_fresh {db : D1} {input : InviteCreateInput} (hfresh : Fresh db.invitations input) (nowMs : Int)
    (actor : D1AuditActor) (first : UniqueColumn) :
    (create db input nowMs actor first).2 = .created ↔
      pendingAvailable db.invitations input.projectId nowMs = true ∧
        windowAvailable db.invitations input.projectId nowMs = true := by
  have hnone : existingConflict db.invitations input = none := by
    unfold existingConflict
    rw [Option.map_eq_none_iff, List.find?_eq_none]
    intro row hm
    simp [(hfresh row hm).1, (hfresh row hm).2]
  unfold create
  rw [hnone, ← Bool.and_eq_true]
  dsimp only
  cases havailable : pendingAvailable db.invitations input.projectId nowMs &&
      windowAvailable db.invitations input.projectId nowMs with
  | false =>
    rw [issueBatch_of_unavailable havailable]
    exact ⟨fun h => absurd h (explained_ne_created _ _ _), fun h => absurd h Bool.false_ne_true⟩
  | true =>
    have hfree : ∀ column, db.invitations.taken (issuedRow input nowMs) column = false :=
      UniqueColumn.forall (SqlTable.not_taken.mpr fun row hm => (hfresh row hm).1)
        (SqlTable.not_taken.mpr fun row hm => (hfresh row hm).2)
    have hbatch : ∃ db', issueBatch db input nowMs actor first = .ok (db', true) := by
      unfold issueBatch conditionalInviteInsert
      rw [havailable, if_pos rfl, dif_pos ⟨hfree .id, hfree .linkPub⟩]
      exact ⟨_, rfl⟩
    obtain ⟨db', hbatch⟩ := hbatch
    rw [hbatch]
    exact ⟨fun _ => rfl, fun _ => rfl⟩

/-! ## Why it was refused -/

/-- A call whose insert changed nothing, up to its answer. -/
def Progress.refuses : Progress → Bool
  | .countsPending => true
  | .countsWindow => true
  | .answered (.issue (.pendingLimit _)) => true
  | .answered (.issue (.rateLimited _)) => true
  | _ => false

theorem advance_refuses {db : D1} {input : InviteCreateInput} {actor : D1AuditActor} {nowMs : Int} {progress : Progress}
    {first : UniqueColumn} (h : (advance db ⟨.create input actor, nowMs, progress⟩ first).2.progress.refuses = true) :
    progress.refuses = true ∨ progress = .inserts ∧
      (pendingAvailable db.invitations input.projectId nowMs && windowAvailable db.invitations input.projectId nowMs) =
        false := by
  cases progress with
  | begins =>
    simp only [advance] at h
    split at h <;> cases h
  | inserts =>
    refine .inr ⟨rfl, ?_⟩
    by_contra hne
    have havailable := Bool.eq_true_of_not_eq_false hne
    simp only [advance] at h
    unfold issueBatch conditionalInviteInsert at h
    rw [havailable, if_pos rfl] at h
    split_ifs at h <;> cases h
  | countsPending => exact .inl rfl
  | countsWindow => exact .inl rfl
  | answered answer => exact .inl h

theorem advance_operation (db : D1) (call : Call) (first : UniqueColumn) :
    (advance db call first).2.operation = call.operation ∧ (advance db call first).2.nowMs = call.nowMs := by
  have heffect := advance_effect db call first
  generalize (advance db call first).1 = db', (advance db call first).2 = call' at heffect
  cases heffect <;> exact ⟨rfl, rfl⟩

/-- The request of the call at which the insert's predicates were false. -/
structure RefusedAt (start : Int) (actions : List Action) (index : Nat) (input : InviteCreateInput) (nowMs : Int) : Prop where
  request : ∃ before first after actor, actions = before ++ .request index first :: after ∧
    (run start before).calls[index]? = some ⟨.create input actor, nowMs, .inserts⟩ ∧
    (pendingAvailable (run start before).db.invitations input.projectId nowMs &&
      windowAvailable (run start before).db.invitations input.projectId nowMs) = false

theorem RefusedAt.later {start : Int} {actions : List Action} {index : Nat} {input : InviteCreateInput} {nowMs : Int}
    (h : RefusedAt start actions index input nowMs) (action : Action) :
    RefusedAt start (actions ++ [action]) index input nowMs := by
  obtain ⟨before, first, after, actor, rfl, hcall, hfalse⟩ := h
  exact ⟨before, first, after ++ [action], actor, by simp, hcall, hfalse⟩

theorem refused_run (start : Int) (actions : List Action) (index : Nat) (input : InviteCreateInput) (actor : D1AuditActor)
    (nowMs : Int) (progress : Progress)
    (hcall : (run start actions).calls[index]? = some ⟨.create input actor, nowMs, progress⟩)
    (hrefuses : progress.refuses = true) : RefusedAt start actions index input nowMs := by
  induction actions using List.reverseRecOn generalizing progress with
  | nil => cases hcall
  | append_singleton actions action ih =>
    rw [run_snoc] at hcall
    cases action with
    | tick later => exact (ih progress hcall hrefuses).later _
    | call operation =>
      rw [show (step (run start actions) (.call operation)).calls =
        (run start actions).calls ++ [⟨operation, (run start actions).clock, .begins⟩] from rfl] at hcall
      rw [List.getElem?_append] at hcall
      split_ifs at hcall with hlt
      · exact (ih progress hcall hrefuses).later _
      · have hbegins := List.mem_singleton.mp (List.mem_of_getElem? hcall)
        injection hbegins with _ _ hprogress
        rw [hprogress] at hrefuses
        cases hrefuses
    | request other first =>
      cases hother : (run start actions).calls[other]? with
      | none =>
        rw [show step (run start actions) (.request other first) = run start actions by simp only [step, hother]] at hcall
        exact (ih progress hcall hrefuses).later _
      | some call =>
        have hcalls : (step (run start actions) (.request other first)).calls =
            (run start actions).calls.set other (advance (run start actions).db call first).2 := by
          simp only [step, hother]
        rw [hcalls] at hcall
        by_cases hindex : other = index
        · subst hindex
          rw [List.getElem?_set_self (List.getElem?_eq_some_iff.mp hother).1] at hcall
          injection hcall with hcall
          obtain ⟨hoperation, hnow⟩ := advance_operation (run start actions).db call first
          rw [hcall] at hoperation hnow
          obtain ⟨operation, callMs, before⟩ := call
          obtain rfl : Operation.create input actor = operation := hoperation
          obtain rfl : nowMs = callMs := hnow
          rcases advance_refuses (by rw [hcall]; exact hrefuses) with hbefore | ⟨rfl, hfalse⟩
          · exact (ih before hother hbefore).later _
          · exact ⟨actions, first, [], actor, rfl, hother, hfalse⟩
        · rw [List.getElem?_set_ne hindex] at hcall
          exact (ih progress hcall hrefuses).later _

/-! ## The issuer is told the truth -/

def Answer.refuses : Answer → Bool
  | .issue (.pendingLimit _) => true
  | .issue (.rateLimited _) => true
  | _ => false

theorem windowRejection_of_answer {db : D1} {refused : InviteCreateInput} {refuser : D1AuditActor} {nowMs n : Int}
    {first : UniqueColumn}
    (hanswer : (advance db ⟨.create refused refuser, nowMs, .countsWindow⟩ first).2.progress =
      .answered (.issue (.rateLimited n)))
    (hfull : windowAvailable db.invitations refused.projectId nowMs = false) :
    windowRejection db.invitations refused.projectId nowMs = some (.rateLimited n) := by
  have hnot : ¬ db.invitations.count (issuedSince refused.projectId (nowMs - inviteIssueWindowMs)) < inviteIssueWindowLimit :=
    of_decide_eq_false hfull
  simp only [advance, Call.answer, Call.at] at hanswer
  injection hanswer with hanswer
  injection hanswer with hanswer
  unfold windowRejection at hanswer ⊢
  rw [if_neg hnot] at hanswer ⊢
  exact congrArg some hanswer

/-- **A retry at the announced second is admitted exactly when that second suffices; a refusal is the insert's own.** -/
theorem refused_issuer_told (db : D1) (start : Int) (actions : List Action) :
    (∀ (refused : InviteCreateInput) (refuser : D1AuditActor) (nowMs n : Int) (first : UniqueColumn),
      (advance db ⟨.create refused refuser, nowMs, .countsWindow⟩ first).2.progress =
        .answered (.issue (.rateLimited n)) →
      windowAvailable db.invitations refused.projectId nowMs = false →
      ∀ (input : InviteCreateInput) (actor : D1AuditActor) (first : UniqueColumn), input.projectId = refused.projectId →
      Fresh db.invitations input → pendingAvailable db.invitations input.projectId (nowMs + 1000 * n) = true →
      ((create db input (nowMs + 1000 * n) actor first).2 = .created ↔
        SecondSuffices db.invitations refused.projectId nowMs)) ∧
    ∀ (index : Nat) (input : InviteCreateInput) (actor : D1AuditActor) (nowMs : Int) (answer : Answer),
      (run start actions).calls[index]? = some ⟨.create input actor, nowMs, .answered answer⟩ →
      answer.refuses = true → RefusedAt start actions index input nowMs := by
  constructor
  · intro refused refuser nowMs n first hanswer hfull input actor first' hproject hfresh hpending
    have hrejected := windowRejection_of_answer hanswer hfull
    rw [create_fresh hfresh, hproject, windowAvailable_announced hrejected, ← hproject]
    exact and_iff_right hpending
  · intro index input actor nowMs answer hcall hrefuses
    refine refused_run start actions index input actor nowMs _ hcall ?_
    unfold Answer.refuses at hrefuses
    unfold Progress.refuses
    split at hrefuses <;> first | rfl | cases hrefuses

/-! ## Thirty invitations at one instant -/

section Example

def exampleInput (n : Nat) : InviteCreateInput where
  id := [UInt16.ofNat (48 + n)]
  projectId := lit "p"
  role := .member
  scope := ⟨.all, []⟩
  inviterUserId := lit "alice"
  issuance := ⟨[UInt16.ofNat (48 + n)], lit "h", 1, lit "s"⟩

def exampleActor : D1AuditActor := ⟨some (lit "alice"), none, none⟩

/-- Thirty created one after the other at the instant 0. -/
def thirtyActions : List Action :=
  (List.range 30).flatMap fun n => [.call (.create (exampleInput n) exampleActor), .request n .id, .request n .id]

instance (invitations : SqlTable InvitationRow.column) (input : InviteCreateInput) : Decidable (Fresh invitations input) :=
  inferInstanceAs (Decidable (∀ row ∈ invitations.rows, row.id ≠ input.id ∧ row.linkPub ≠ input.issuance.linkPubHex))

/-- One second before the thirty leave the window the issuer is told one second, and refused again after it. -/
theorem told_one_second_too_few :
    ¬ ∀ (db : D1) (refused : InviteCreateInput) (refuser : D1AuditActor) (nowMs n : Int) (first : UniqueColumn),
      (advance db ⟨.create refused refuser, nowMs, .countsWindow⟩ first).2.progress =
        .answered (.issue (.rateLimited n)) →
      windowAvailable db.invitations refused.projectId nowMs = false →
      ∀ (input : InviteCreateInput) (actor : D1AuditActor) (first : UniqueColumn), input.projectId = refused.projectId →
      Fresh db.invitations input → pendingAvailable db.invitations input.projectId (nowMs + 1000 * n) = true →
      (create db input (nowMs + 1000 * n) actor first).2 = .created := by
  intro h
  have hcreated := h (run 0 thirtyActions).db (exampleInput 30) exampleActor (inviteIssueWindowMs - 1000) 1 .id
    (by decide +kernel) (by decide +kernel) (exampleInput 30) exampleActor .id rfl (by decide +kernel) (by decide +kernel)
  have hrefused : (create (run 0 thirtyActions).db (exampleInput 30) (inviteIssueWindowMs - 1000 + 1000 * 1)
      exampleActor .id).2 = .rateLimited 1 := by decide +kernel
  rw [hrefused] at hcreated
  cases hcreated

/-- A millisecond later the second that is announced reaches past the window, and the retry is admitted. -/
theorem told_second_suffices :
    SecondSuffices (run 0 thirtyActions).db.invitations (exampleInput 30).projectId (inviteIssueWindowMs - 999) ∧
      (create (run 0 thirtyActions).db (exampleInput 30) (inviteIssueWindowMs - 999 + 1000 * 1) exampleActor .id).2 = .created := by
  have hcount : (run 0 thirtyActions).db.invitations.count
      (issuedSince (exampleInput 30).projectId (inviteIssueWindowMs - 999 - inviteIssueWindowMs)) = inviteIssueWindowLimit := by
    decide +kernel
  have holdest : IsOldest (run 0 thirtyActions).db.invitations (exampleInput 30).projectId
      (inviteIssueWindowMs - 999 - inviteIssueWindowMs) 0 := oldestSince_spec.mp (by decide +kernel)
  have hsuffices := (secondSuffices_of_limit hcount holdest).mpr (by decide)
  have htold := (refused_issuer_told (run 0 thirtyActions).db 0 thirtyActions).1 (exampleInput 30) exampleActor
    (inviteIssueWindowMs - 999) 1 .id (by decide +kernel) (by decide +kernel) (exampleInput 30) exampleActor .id rfl
    (by decide +kernel) (by decide +kernel)
  exact ⟨hsuffices, htold.mpr hsuffices⟩

end Example

end Maruhi.Invites
