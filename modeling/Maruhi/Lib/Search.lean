import Mathlib.Data.List.Perm.Basic
import Mathlib.Tactic.SplitIfs

/-!
# Trying one candidate after another

An attempt may answer that this is not the candidate; then the next one is tried. Any other answer ends the search.
-/

namespace Search
variable {δ ε α : Type}

/-- The first answer that is no retry, else the last retry. -/
def search (retries : ε → Bool) (attempt : δ → Except ε α) (last : ε) : List δ → Except ε (δ × α)
  | [] => .error last
  | d :: rest =>
    match attempt d with
    | .ok value => .ok (d, value)
    | .error e => if retries e then search retries attempt e rest else .error e

attribute [grind =] search

/-- The attempts differ in one test only: before it they all end alike, and who fails it is asked to retry. -/
inductive OneTest (retries : ε → Bool) (attempt : δ → Except ε α) (passes : δ → Prop) (l : List δ) : Prop
  | before (e : ε) (hall : ∀ d ∈ l, attempt d = .error e)
  | test (e : ε) (hretry : retries e = true) (hfails : ∀ d ∈ l, ¬ passes d → attempt d = .error e)
      (hpasses : ∀ d ∈ l, passes d → ∀ e', attempt d = .error e' → retries e' = false)

section Laws
variable {retries : ε → Bool} {attempt : δ → Except ε α} {passes : δ → Prop} {l : List δ}

theorem search_alike {e : ε} (hall : ∀ d ∈ l, attempt d = .error e) {last : ε} (hlast : l = [] → last = e) :
    search retries attempt last l = .error e := by
  induction l generalizing last with
  | nil => rw [search, hlast rfl]
  | cons d rest ih =>
    unfold search
    rw [hall d List.mem_cons_self]
    dsimp only
    split_ifs
    · exact ih (fun d hd => hall d (List.mem_cons_of_mem _ hd)) fun _ => rfl
    · rfl

theorem search_passing {e : ε} (hretry : retries e = true) (hfails : ∀ d ∈ l, ¬ passes d → attempt d = .error e)
    (hpasses : ∀ d ∈ l, passes d → ∀ e', attempt d = .error e' → retries e' = false)
    (hunique : ∀ d ∈ l, ∀ d' ∈ l, passes d → passes d' → d = d') {s : δ} (hs : s ∈ l) (hpass : passes s) (last : ε) :
    search retries attempt last l = (attempt s).map fun value => (s, value) := by
  induction l generalizing last with
  | nil => cases hs
  | cons d rest ih =>
    unfold search
    by_cases hd : passes d
    · obtain rfl := hunique d List.mem_cons_self s hs hd hpass
      cases hattempt : attempt d with
      | ok value => rfl
      | error e' =>
        dsimp only
        rw [hpasses d List.mem_cons_self hd e' hattempt, if_neg Bool.false_ne_true]
        rfl
    · have hs : s ∈ rest := (List.mem_cons.mp hs).resolve_left fun heq => hd (heq ▸ hpass)
      rw [hfails d List.mem_cons_self hd]
      dsimp only
      rw [hretry, if_pos rfl]
      exact ih (fun d hd => hfails d (List.mem_cons_of_mem _ hd)) (fun d hd => hpasses d (List.mem_cons_of_mem _ hd))
        (fun d hd d' hd' => hunique d (List.mem_cons_of_mem _ hd) d' (List.mem_cons_of_mem _ hd')) hs _

variable (h : OneTest retries attempt passes l) (hunique : ∀ d ∈ l, ∀ d' ∈ l, passes d → passes d' → d = d')
include h

theorem OneTest.passes_of_ok {d : δ} (hd : d ∈ l) {value : α} (hattempt : attempt d = .ok value) : passes d := by
  cases h with
  | before e hall => rw [hall d hd] at hattempt; cases hattempt
  | test e hretry hfails hpasses =>
    by_contra hpass
    rw [hfails d hd hpass] at hattempt
    cases hattempt

theorem OneTest.final_of_fails {d s : δ} (hd : d ∈ l) (hs : s ∈ l) (hother : ¬ passes d) {e : ε}
    (hattempt : attempt d = .error e) (hfinal : retries e = false) : attempt s = .error e := by
  cases h with
  | before e' hall =>
    rw [hall d hd] at hattempt
    rw [hall s hs, Except.error.inj hattempt]
  | test e' hretry hfails hpasses =>
    rw [hfails d hd hother] at hattempt
    rw [← Except.error.inj hattempt, hretry] at hfinal
    cases hfinal

include hunique

/-- The search succeeds with what an attempt succeeds with. -/
theorem OneTest.search_ok_iff (last : ε) {d : δ} {value : α} :
    search retries attempt last l = .ok (d, value) ↔ d ∈ l ∧ attempt d = .ok value := by
  by_cases hne : l = []
  · subst hne
    simp [search]
  cases h with
  | before e hall =>
    rw [search_alike hall fun heq => absurd heq hne]
    refine ⟨fun h => (nomatch h), fun ⟨hd, hattempt⟩ => ?_⟩
    rw [hall d hd] at hattempt
    cases hattempt
  | test e hretry hfails hpasses =>
    by_cases hsome : ∃ s ∈ l, passes s
    · obtain ⟨s, hs, hpass⟩ := hsome
      rw [search_passing hretry hfails hpasses hunique hs hpass]
      constructor
      · intro hok
        cases hattempt : attempt s with
        | error e' => rw [hattempt] at hok; cases hok
        | ok value' =>
          rw [hattempt] at hok
          cases hok
          exact ⟨hs, hattempt⟩
      · rintro ⟨hd, hattempt⟩
        have hpass' : passes d := (OneTest.test e hretry hfails hpasses).passes_of_ok hd hattempt
        obtain rfl := hunique d hd s hs hpass' hpass
        rw [hattempt]
        rfl
    · have hall : ∀ d ∈ l, attempt d = .error e := fun d hd => hfails d hd fun hpass => hsome ⟨d, hd, hpass⟩
      rw [search_alike hall fun heq => absurd heq hne]
      refine ⟨fun h => (nomatch h), fun ⟨hd, hattempt⟩ => ?_⟩
      rw [hall d hd] at hattempt
      cases hattempt

theorem OneTest.search_perm {l' : List δ} (hperm : l'.Perm l) (hne : l ≠ []) (last last' : ε) :
    search retries attempt last' l' = search retries attempt last l := by
  have hne' : l' ≠ [] := by
    rintro rfl
    exact hne (List.nil_perm.mp hperm)
  have hsub := hperm.subset
  cases h with
  | before e hall =>
    rw [search_alike hall fun heq => absurd heq hne,
      search_alike (fun d hd => hall d (hsub hd)) fun heq => absurd heq hne']
  | test e hretry hfails hpasses =>
    by_cases hsome : ∃ s ∈ l, passes s
    · obtain ⟨s, hs, hpass⟩ := hsome
      rw [search_passing hretry hfails hpasses hunique hs hpass]
      exact search_passing hretry (fun d hd => hfails d (hsub hd)) (fun d hd => hpasses d (hsub hd))
        (fun d hd d' hd' => hunique d (hsub hd) d' (hsub hd')) (hperm.mem_iff.mpr hs) hpass last'
    · have hall : ∀ d ∈ l, attempt d = .error e := fun d hd => hfails d hd fun hpass => hsome ⟨d, hd, hpass⟩
      rw [search_alike hall fun heq => absurd heq hne,
        search_alike (fun d hd => hall d (hsub hd)) fun heq => absurd heq hne']

end Laws

end Search
