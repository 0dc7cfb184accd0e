import Maruhi.Chain.Wire
import Mathlib.Data.Set.Finite.Basic

/-!
# Principle 1 is exact

What a change touches is written down finitely, over environments without end. An actor's scope contains what is
written where it contains every environment the change touches.
-/

open Text

namespace Maruhi.Chain

/-! ## What an environment set stands for -/

/-- `all` stands for every set that leaves out finitely many environments. -/
def EnvironmentSet.StandsFor (environments : Set EnvironmentId) : EnvironmentSet → Set EnvironmentId → Prop
  | .all, touched => (environments \ touched).Finite
  | .listed ids, touched => (∀ e ∈ ids, e ∈ environments) ∧ ∀ e ∈ environments, e ∈ touched ↔ e ∈ ids

section Sets
variable {environments : Set EnvironmentId}

theorem EnvironmentSet.StandsFor.congr {set : EnvironmentSet} {a b : Set EnvironmentId}
    (h : set.StandsFor environments a) (hiff : ∀ e, e ∈ a ↔ e ∈ b) : set.StandsFor environments b := by
  rwa [← Set.ext hiff]

/-- No finite list covers what `all` stands for. -/
theorem exists_beyond (hinfinite : environments.Infinite) {touched : Set EnvironmentId}
    (h : EnvironmentSet.all.StandsFor environments touched) (ids : List EnvironmentId) :
    ∃ e ∈ environments, e ∈ touched ∧ e ∉ ids := by
  have hfinite : (environments \ touched ∪ {e | e ∈ ids}).Finite := Set.Finite.union h (List.finite_toSet ids)
  obtain ⟨e, he, hbeyond⟩ := hinfinite.exists_notMem_finite hfinite
  simp only [Set.mem_union, Set.mem_sdiff, Set.mem_ofPred_eq, not_or, not_and, not_not] at hbeyond
  exact ⟨e, he, hbeyond.1 he, hbeyond.2⟩

theorem scopeContains_iff (hinfinite : environments.Infinite) (actor : MemberScope) {set : EnvironmentSet}
    {touched : Set EnvironmentId} (h : set.StandsFor environments touched) :
    scopeContainsEnvironmentSet actor set = true ↔ ∀ e ∈ environments, e ∈ touched → actor.Has e := by
  cases actor with
  | all => simp [scopeContainsEnvironmentSet]
  | listed actorIds =>
    cases set with
    | all =>
      obtain ⟨e, he, htouched, hbeyond⟩ := exists_beyond hinfinite h actorIds
      simp only [scopeContainsEnvironmentSet, Bool.false_eq_true, has_listed, false_iff, not_forall]
      exact ⟨e, he, htouched, hbeyond⟩
    | listed ids =>
      obtain ⟨hin, hstands⟩ := h
      simp only [scopeContainsEnvironmentSet, List.all_eq_true, List.any_eq_true, decide_eq_true_eq, exists_eq_right,
        has_listed]
      constructor
      · intro hall e he htouched
        exact hall e ((hstands e he).mp htouched)
      · intro hall e he
        exact hall e (hin e he) ((hstands e (hin e he)).mpr he)

theorem standsFor_scope (scope : MemberScope) (hids : ∀ e ∈ scope.ids, e ∈ environments) :
    (scopeAsEnvironmentSet scope).StandsFor environments {e | scope.Has e} := by
  cases scope with
  | all => simp [scopeAsEnvironmentSet, EnvironmentSet.StandsFor]
  | listed ids => exact ⟨hids, fun e _ => by simp⟩

theorem standsFor_union (a b : MemberScope) (ha : ∀ e ∈ a.ids, e ∈ environments) (hb : ∀ e ∈ b.ids, e ∈ environments) :
    (unionEnvironmentSets (scopeAsEnvironmentSet a) (scopeAsEnvironmentSet b)).StandsFor environments
      {e | a.Has e ∨ b.Has e} := by
  cases a with
  | all => cases b <;> simp [scopeAsEnvironmentSet, unionEnvironmentSets, EnvironmentSet.StandsFor]
  | listed as =>
    cases b with
    | all => simp [scopeAsEnvironmentSet, unionEnvironmentSets, EnvironmentSet.StandsFor]
    | listed bs =>
      refine ⟨fun e he => ?_, fun e _ => by simp⟩
      rcases List.mem_append.mp he with he | he
      · exact ha e he
      · exact hb e he

theorem standsFor_symmetricDifference (a b : MemberScope) (ha : ∀ e ∈ a.ids, e ∈ environments)
    (hb : ∀ e ∈ b.ids, e ∈ environments) :
    (symmetricDifferenceEnvironmentSets (scopeAsEnvironmentSet a) (scopeAsEnvironmentSet b)).StandsFor environments
      {e | ¬ (a.Has e ↔ b.Has e)} := by
  cases a with
  | all =>
    cases b with
    | all => simp [scopeAsEnvironmentSet, symmetricDifferenceEnvironmentSets, EnvironmentSet.StandsFor]
    | listed bs =>
      refine Set.Finite.subset (List.finite_toSet bs) fun e he => ?_
      simpa using he.2
  | listed as =>
    cases b with
    | all =>
      refine Set.Finite.subset (List.finite_toSet as) fun e he => ?_
      simpa using he.2
    | listed bs =>
      constructor
      · intro e he
        rcases List.mem_append.mp he with he | he
        · exact ha e (List.mem_filter.mp he).1
        · exact hb e (List.mem_filter.mp he).1
      · intro e _
        simp only [Set.mem_ofPred_eq, has_listed, List.mem_append, List.mem_filter, Bool.not_eq_true',
          List.contains_eq_mem, decide_eq_false_iff_not]
        tauto

end Sets

/-! ## The change of a permission -/

/-- An operation on a person, with the person as the state has them. -/
inductive PermissionChange
  | addMember (p : AddMemberPayload)
  | changeRole (p : ChangeRolePayload) (target : ChainMember)
  | removeMember (p : RemoveMemberPayload) (target : ChainMember)

def permissionChangeEnvironments : PermissionChange → EnvironmentSet
  | .addMember p => permissionChangeAddMember p
  | .changeRole p target => permissionChangeChangeRole p (some target)
  | .removeMember _ target => permissionChangeRemoveMember (some target)

namespace PermissionChange

def before : PermissionChange → Option ChainMember
  | .addMember _ => none
  | .changeRole _ target => some target
  | .removeMember _ target => some target

def after (crypto : Crypto) (seq : Nat) (actorUserId : UserId) (change : PermissionChange) : Option ChainMember :=
  match change with
  | .addMember p => memberAfter crypto (.addMember p) seq actorUserId p.targetUserId change.before
  | .changeRole p _ => memberAfter crypto (.changeRole p) seq actorUserId p.targetUserId change.before
  | .removeMember p _ => memberAfter crypto (.removeMember p) seq actorUserId p.targetUserId change.before

theorem after_addMember (crypto : Crypto) (seq : Nat) (actorUserId : UserId) (p : AddMemberPayload) :
    (addMember p).after crypto seq actorUserId = some (newMember crypto p seq) := if_pos rfl

theorem after_changeRole (crypto : Crypto) (seq : Nat) (actorUserId : UserId) (p : ChangeRolePayload)
    (target : ChainMember) :
    (changeRole p target).after crypto seq actorUserId = some (changedMember p target) := if_pos rfl

theorem after_removeMember (crypto : Crypto) (seq : Nat) (actorUserId : UserId) (p : RemoveMemberPayload)
    (target : ChainMember) : (removeMember p target).after crypto seq actorUserId = none := if_pos rfl

/-- The environments that the scopes name. -/
def ids : PermissionChange → List EnvironmentId
  | .addMember p => (memberScopeOf p.toScopePayloadFields).ids
  | .changeRole p target => target.scope.ids ++ (memberScopeOf p.toScopePayloadFields).ids
  | .removeMember _ target => target.scope.ids

end PermissionChange

/-- The role a person has in an environment: theirs where it is in their scope. -/
def permissionAt (member : Option ChainMember) (e : EnvironmentId) : Option Role :=
  member.bind fun m => if scopeIncludesEnvironment m.scope e then some m.role else none

theorem permissionAt_some (m : ChainMember) (e : EnvironmentId) :
    permissionAt (some m) e = if scopeIncludesEnvironment m.scope e then some m.role else none := rfl

/-- Where the permission differs before and after. -/
def touchedBy (crypto : Crypto) (seq : Nat) (actorUserId : UserId) (change : PermissionChange) : Set EnvironmentId :=
  {e | permissionAt change.before e ≠ permissionAt (change.after crypto seq actorUserId) e}

theorem permissionAt_eq_none (m : ChainMember) (e : EnvironmentId) : permissionAt (some m) e = none ↔ ¬ m.scope.Has e := by
  simp [permissionAt_some, MemberScope.Has]

theorem permissionAt_ne (m n : ChainMember) (e : EnvironmentId) :
    permissionAt (some m) e ≠ permissionAt (some n) e ↔
      if m.role = n.role then ¬ (m.scope.Has e ↔ n.scope.Has e) else m.scope.Has e ∨ n.scope.Has e := by
  simp only [permissionAt_some, MemberScope.Has]
  split_ifs <;> simp_all

theorem standsFor_change (crypto : Crypto) (seq : Nat) (actorUserId : UserId) {environments : Set EnvironmentId}
    (change : PermissionChange) (hids : ∀ e ∈ change.ids, e ∈ environments) :
    (permissionChangeEnvironments change).StandsFor environments (touchedBy crypto seq actorUserId change) := by
  cases change with
  | addMember p =>
    refine (standsFor_scope (memberScopeOf p.toScopePayloadFields) hids).congr fun e => ?_
    have hnew := permissionAt_eq_none (newMember crypto p seq) e
    rw [Set.mem_ofPred_eq, touchedBy, Set.mem_ofPred_eq, PermissionChange.after_addMember, ← not_iff_not, not_not]
    exact hnew.symm.trans eq_comm
  | removeMember p target =>
    refine (standsFor_scope target.scope hids).congr fun e => ?_
    rw [Set.mem_ofPred_eq, touchedBy, Set.mem_ofPred_eq, PermissionChange.after_removeMember, ← not_iff_not, not_not]
    exact (permissionAt_eq_none target e).symm
  | changeRole p target =>
    have hcurrent : ∀ e ∈ target.scope.ids, e ∈ environments := fun e he => hids e (List.mem_append_left _ he)
    have hnext : ∀ e ∈ (memberScopeOf p.toScopePayloadFields).ids, e ∈ environments := fun e he =>
      hids e (List.mem_append_right _ he)
    have hdiffer := permissionAt_ne target (changedMember p target)
    unfold permissionChangeEnvironments permissionChangeChangeRole
    by_cases hrole : target.role = p.newRole
    · simp only [Option.map_some, Option.getD_some, hrole, if_true]
      refine (standsFor_symmetricDifference target.scope _ hcurrent hnext).congr fun e => ?_
      rw [Set.mem_ofPred_eq, touchedBy, Set.mem_ofPred_eq, PermissionChange.after_changeRole]
      exact ((hdiffer e).trans (iff_of_eq (if_pos hrole))).symm
    · simp only [Option.map_some, Option.getD_some, Option.some.injEq, hrole, if_false]
      refine (standsFor_union target.scope _ hcurrent hnext).congr fun e => ?_
      rw [Set.mem_ofPred_eq, touchedBy, Set.mem_ofPred_eq, PermissionChange.after_changeRole]
      exact ((hdiffer e).trans (iff_of_eq (if_neg hrole))).symm

/-- The containment test holds where the actor's scope has every environment in which the permission changes. -/
theorem containment_exact (crypto : Crypto) (seq : Nat) (actorUserId : UserId) (environments : Set EnvironmentId)
    (hinfinite : environments.Infinite) (actor : MemberScope) (change : PermissionChange)
    (hids : ∀ e ∈ change.ids, e ∈ environments) :
    scopeContainsEnvironmentSet actor (permissionChangeEnvironments change) = true ↔
      ∀ e ∈ environments, permissionAt change.before e ≠ permissionAt (change.after crypto seq actorUserId) e →
        actor.Has e :=
  scopeContains_iff hinfinite actor (standsFor_change crypto seq actorUserId change hids)

/-- Someone narrowed from every environment to one. -/
def narrowedMember : PermissionChange :=
  .changeRole
    { scopeKind := .listed, scopeEnvironmentIds := [lit "staging"], targetUserId := lit "bob", newRole := .member }
    { userId := lit "bob", role := .member, scope := .all, devices := .empty }

theorem containment_exact_narrowed :
    scopeContainsEnvironmentSet (.listed [lit "staging"]) (permissionChangeEnvironments narrowedMember) = true ↔
      ∀ e ∈ (Set.univ : Set EnvironmentId), permissionAt narrowedMember.before e ≠
          permissionAt (narrowedMember.after exampleCrypto 5 (lit "alice")) e →
        MemberScope.Has (.listed [lit "staging"]) e :=
  containment_exact exampleCrypto 5 (lit "alice") Set.univ Set.infinite_univ (.listed [lit "staging"]) narrowedMember
    fun _ _ => Set.mem_univ _

end Maruhi.Chain
