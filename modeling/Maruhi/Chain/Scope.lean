import Maruhi.Chain.Types

/-!
# Scope set algebra (`member-scope.ts`)
-/

namespace Maruhi.Chain

/-- An environment set of the containment test: `all` stands for all environments or any
cofinite set of them, `listed` for a finite set. -/
inductive EnvironmentSet
  | all
  | listed (ids : List EnvironmentId)

def maxScopeEnvironments : Nat := 256

def memberScopeOf (fields : ScopePayloadFields) : MemberScope :=
  match fields.scopeKind with
  | .all => .all
  | .listed => .listed fields.scopeEnvironmentIds

def scopeIncludesEnvironment (scope : MemberScope) (environmentId : EnvironmentId) : Bool :=
  match scope with
  | .all => true
  | .listed ids => ids.any fun id => id = environmentId

/-- A scope without a deleted environment: `all` stays `all`. -/
def scopeWithout (scope : MemberScope) (environmentId : EnvironmentId) : MemberScope :=
  match scope with
  | .all => .all
  | .listed ids =>
    if ids.any fun id => id = environmentId then .listed (ids.filter fun id => id ≠ environmentId)
    else .listed ids

def scopeAsEnvironmentSet : MemberScope → EnvironmentSet
  | .all => .all
  | .listed ids => .listed ids

def unionEnvironmentSets : EnvironmentSet → EnvironmentSet → EnvironmentSet
  | .listed a, .listed b => .listed (a ++ b)
  | _, _ => .all

/-- `all △ listed X` is cofinite, so it is `all` here. -/
def symmetricDifferenceEnvironmentSets : EnvironmentSet → EnvironmentSet → EnvironmentSet
  | .all, .all => .listed []
  | .listed a, .listed b =>
    .listed ((a.filter fun id => !b.contains id) ++ (b.filter fun id => !a.contains id))
  | _, _ => .all

def scopeContainsEnvironmentSet : MemberScope → EnvironmentSet → Bool
  | .all, _ => true
  | .listed _, .all => false
  | .listed actorIds, .listed ids => ids.all fun id => actorIds.any fun e => e = id

/-! ## Scopes as sets of environments -/

/-- The environments in a scope. -/
def MemberScope.Has (scope : MemberScope) (e : EnvironmentId) : Prop :=
  scopeIncludesEnvironment scope e = true

@[simp] theorem has_all (e : EnvironmentId) : MemberScope.all.Has e := rfl

@[simp] theorem has_listed (ids : List EnvironmentId) (e : EnvironmentId) :
    (MemberScope.listed ids).Has e ↔ e ∈ ids := by
  simp [MemberScope.Has, scopeIncludesEnvironment]

/-- The ids a scope names one by one. -/
def MemberScope.ids : MemberScope → List EnvironmentId
  | .all => []
  | .listed ids => ids

@[simp] theorem ids_all : MemberScope.all.ids = [] := rfl
@[simp] theorem ids_listed (l : List EnvironmentId) : (MemberScope.listed l).ids = l := rfl

theorem scopeWithout_ids (scope : MemberScope) (e : EnvironmentId) :
    (scopeWithout scope e).ids = scope.ids.filter fun id => id ≠ e := by
  cases scope with
  | all => rfl
  | listed ids =>
    simp only [scopeWithout]
    split_ifs with h
    · rfl
    · have hall : ∀ id ∈ ids, decide (id ≠ e) = true := by
        intro id hid
        simp only [List.any_eq_true, decide_eq_true_eq, exists_eq_right] at h
        simpa using fun heq : id = e => h (heq ▸ hid)
      rw [ids_listed, List.filter_eq_self.mpr hall]

theorem has_scopeWithout_ne (scope : MemberScope) {e e' : EnvironmentId} (h : e' ≠ e) :
    (scopeWithout scope e).Has e' ↔ scope.Has e' := by
  cases scope with
  | all => rfl
  | listed ids =>
    simp only [scopeWithout]
    split_ifs <;> simp [h]

theorem scopeWithout_eq_all_iff (scope : MemberScope) (e : EnvironmentId) :
    scopeWithout scope e = .all ↔ scope = .all := by
  cases scope with
  | all => simp [scopeWithout]
  | listed ids => simp only [scopeWithout]; split_ifs <;> simp

/-- Set containment, where `all` is contained in `all` alone. -/
def MemberScope.Within (a b : MemberScope) : Prop :=
  b = .all ∨ ∃ as bs, a = .listed as ∧ b = .listed bs ∧ ∀ e ∈ as, e ∈ bs

theorem within_has {a b : MemberScope} (h : a.Within b) {e : EnvironmentId} (he : a.Has e) : b.Has e := by
  rcases h with rfl | ⟨as, bs, rfl, rfl, hsub⟩
  · rfl
  · simp at he ⊢; exact hsub e he

@[refl] theorem within_refl (a : MemberScope) : a.Within a := by
  cases a with
  | all => exact Or.inl rfl
  | listed ids => exact Or.inr ⟨ids, ids, rfl, rfl, fun _ h => h⟩

theorem within_trans {a b c : MemberScope} (hab : a.Within b) (hbc : b.Within c) : a.Within c := by
  rcases hbc with rfl | ⟨bs, cs, rfl, rfl, hbc⟩
  · exact Or.inl rfl
  · rcases hab with hab | ⟨as, bs', rfl, hb, hab⟩
    · cases hab
    · cases hb
      exact Or.inr ⟨as, cs, rfl, rfl, fun e he => hbc e (hab e he)⟩

theorem scopeWithout_within (scope : MemberScope) (e : EnvironmentId) : (scopeWithout scope e).Within scope := by
  cases scope with
  | all => exact Or.inl rfl
  | listed ids =>
    simp only [scopeWithout]
    split_ifs
    · exact Or.inr ⟨_, ids, rfl, rfl, fun x hx => (List.mem_filter.mp hx).1⟩
    · rfl

/-! ## Containment by a listed scope -/

theorem scopeContains_union {xs : List EnvironmentId} {a b : MemberScope}
    (h : scopeContainsEnvironmentSet (.listed xs)
      (unionEnvironmentSets (scopeAsEnvironmentSet a) (scopeAsEnvironmentSet b)) = true) :
    (∃ as, a = .listed as ∧ ∀ e ∈ as, e ∈ xs) ∧ ∃ bs, b = .listed bs ∧ ∀ e ∈ bs, e ∈ xs := by
  cases a <;> cases b <;>
    simp only [scopeAsEnvironmentSet, unionEnvironmentSets, scopeContainsEnvironmentSet, List.all_eq_true,
      List.any_eq_true, decide_eq_true_eq, exists_eq_right, Bool.false_eq_true, List.mem_append] at h
  exact ⟨⟨_, rfl, fun e he => h e (Or.inl he)⟩, ⟨_, rfl, fun e he => h e (Or.inr he)⟩⟩

theorem scopeContains_scope {xs : List EnvironmentId} {a : MemberScope}
    (h : scopeContainsEnvironmentSet (.listed xs) (scopeAsEnvironmentSet a) = true) :
    ∃ as, a = .listed as ∧ ∀ e ∈ as, e ∈ xs := by
  cases a with
  | all => simp [scopeAsEnvironmentSet, scopeContainsEnvironmentSet] at h
  | listed as =>
    refine ⟨as, rfl, ?_⟩
    simpa [scopeAsEnvironmentSet, scopeContainsEnvironmentSet] using h

theorem scopeContains_symmetricDifference {xs : List EnvironmentId} {a b : MemberScope}
    (h : scopeContainsEnvironmentSet (.listed xs)
      (symmetricDifferenceEnvironmentSets (scopeAsEnvironmentSet a) (scopeAsEnvironmentSet b)) = true)
    {e : EnvironmentId} (he : e ∉ xs) : a.Has e ↔ b.Has e := by
  cases a <;> cases b <;>
    simp only [scopeAsEnvironmentSet, symmetricDifferenceEnvironmentSets, scopeContainsEnvironmentSet,
      List.all_eq_true, List.any_eq_true, decide_eq_true_eq, exists_eq_right, Bool.false_eq_true,
      List.mem_append, List.mem_filter] at h
  · rfl
  · rename_i as bs
    simp only [has_listed]
    constructor
    · intro ha
      by_contra hb
      exact he (h e (Or.inl ⟨ha, by simpa using hb⟩))
    · intro hb
      by_contra ha
      exact he (h e (Or.inr ⟨hb, by simpa using ha⟩))

end Maruhi.Chain
