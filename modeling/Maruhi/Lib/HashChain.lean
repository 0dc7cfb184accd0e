import Mathlib.Tactic.Common
import Mathlib.Data.List.Induction

/-!
# Chains of one-way steps

A fold whose steps can be read back, from the state they end in, commits to the whole list it went through.
-/

namespace HashChain
variable {σ α : Type} {step step' : σ → α → Option σ} {start : σ}

theorem foldlM_snoc {l : List α} {a : α} {s : σ} :
    (l ++ [a]).foldlM step start = some s ↔ ∃ m, l.foldlM step start = some m ∧ step m a = some s := by
  rw [List.foldlM_append]
  simp only [List.foldlM_cons, List.foldlM_nil, Option.bind_eq_bind, Option.bind_eq_some_iff, Option.pure_def]
  simp

/-- The two steps are read back wherever the folds over `l` and over `l'` take them. -/
def ReadBack (step step' : σ → α → Option σ) (start : σ) (l l' : List α) : Prop :=
  ∀ pre a pre' a' m m' s, pre ++ [a] <+: l → pre' ++ [a'] <+: l' → pre.foldlM step start = some m →
    pre'.foldlM step' start = some m' → step m a = some s → step' m' a' = some s → m = m' ∧ a = a'

theorem ReadBack.of_snoc {l l' : List α} {a a' : α} (h : ReadBack step step' start (l ++ [a]) (l' ++ [a'])) :
    ReadBack step step' start l l' := fun pre b pre' b' m m' s hpre hpre' =>
  h pre b pre' b' m m' s (hpre.trans (List.prefix_append _ _)) (hpre'.trans (List.prefix_append _ _))

/-- Folds that end in one state went through one list, when no step leads back to the start. -/
theorem eq_of_foldlM_eq (hstart : ∀ m a, step m a ≠ some start) (hstart' : ∀ m a, step' m a ≠ some start) {l l' : List α}
    (hread : ReadBack step step' start l l') {s : σ} (h : l.foldlM step start = some s)
    (h' : l'.foldlM step' start = some s) : l = l' := by
  induction l using List.reverseRecOn generalizing l' s with
  | nil =>
    cases h
    cases l' using List.reverseRecOn with
    | nil => rfl
    | append_singleton l' a' =>
      obtain ⟨m', -, hstep'⟩ := foldlM_snoc.mp h'
      exact absurd hstep' (hstart' m' a')
  | append_singleton l a ih =>
    obtain ⟨m, hm, hstep⟩ := foldlM_snoc.mp h
    cases l' using List.reverseRecOn with
    | nil =>
      cases h'
      exact absurd hstep (hstart m a)
    | append_singleton l' a' =>
      obtain ⟨m', hm', hstep'⟩ := foldlM_snoc.mp h'
      obtain ⟨rfl, rfl⟩ := hread l a l' a' m m' s List.prefix_rfl List.prefix_rfl hm hm' hstep hstep'
      rw [ih hread.of_snoc hm hm']

end HashChain
