import Mathlib.Tactic.Common
import Mathlib.Data.List.Induction

/-!
# Runs of a partial step function

A fold that stops at the first error. `Reaches step s l s'` says that `step` takes `s` to `s'`
over the whole input list `l`.
-/

namespace Run
variable {σ α ε : Type} {step : σ → α → Except ε σ}

def Reaches (step : σ → α → Except ε σ) (s : σ) (l : List α) (s' : σ) : Prop := l.foldlM step s = .ok s'

theorem bind_ok {β : Type} {x : Except ε σ} {f : σ → Except ε β} {b : β} (h : (x >>= f) = .ok b) :
    ∃ a, x = .ok a ∧ f a = .ok b := by
  cases x with
  | error e => cases h
  | ok a => exact ⟨a, rfl, h⟩

@[simp] theorem reaches_nil (s s' : σ) : Reaches step s [] s' ↔ s' = s := by
  simp only [Reaches, List.foldlM_nil, pure, Except.pure, Except.ok.injEq]
  exact eq_comm

theorem reaches_cons (s s' : σ) (a : α) (l : List α) :
    Reaches step s (a :: l) s' ↔ ∃ m, step s a = .ok m ∧ Reaches step m l s' := by
  simp only [Reaches, List.foldlM_cons]
  constructor
  · exact bind_ok
  · rintro ⟨m, hm, h⟩; rw [hm]; exact h

theorem reaches_append (s s' : σ) (l l' : List α) :
    Reaches step s (l ++ l') s' ↔ ∃ m, Reaches step s l m ∧ Reaches step m l' s' := by
  simp only [Reaches, List.foldlM_append]
  constructor
  · exact bind_ok
  · rintro ⟨m, hm, h⟩; rw [hm]; exact h

theorem reaches_snoc (s s' : σ) (l : List α) (a : α) :
    Reaches step s (l ++ [a]) s' ↔ ∃ m, Reaches step s l m ∧ step m a = .ok s' := by
  simp [reaches_append, reaches_cons]

theorem take_of_snoc_prefix {pre l : List α} {a : α} (h : pre ++ [a] <+: l) :
    l.take pre.length = pre ∧ l[pre.length]? = some a := by
  obtain ⟨tail, rfl⟩ := h
  simp

theorem reaches_unique {s a b : σ} {l : List α} (ha : Reaches step s l a) (hb : Reaches step s l b) : a = b := by
  rw [Reaches, ha] at hb
  exact Except.ok.inj hb

theorem reaches_take {s s' : σ} {l : List α} (h : Reaches step s l s') (n : Nat) :
    ∃ m, Reaches step s (l.take n) m ∧ Reaches step m (l.drop n) s' := by
  rw [← reaches_append, List.take_append_drop]
  exact h

/-- Every step keeps a property of the inputs read so far and the state they lead to, and so does the run. -/
theorem reaches_induction {P : List α → σ → Prop} {s s' : σ} {l : List α} (h : Reaches step s l s')
    (h0 : P [] s)
    (hstep : ∀ pre a m m', pre ++ [a] <+: l → Reaches step s pre m → P pre m → step m a = .ok m' →
      P (pre ++ [a]) m') : P l s' := by
  induction l using List.reverseRecOn generalizing s' with
  | nil => exact (reaches_nil _ _).mp h ▸ h0
  | append_singleton l a ih =>
    obtain ⟨m, hm, ha⟩ := (reaches_snoc _ _ _ _).mp h
    refine hstep l a m s' List.prefix_rfl hm (ih hm ?_) ha
    intro pre b m m' hpre
    exact hstep pre b m m' (hpre.trans (List.prefix_append l [a]))

theorem reaches_map {τ : Type} {step' : τ → α → Except ε τ} (f : σ → τ) {s s' : σ} {l : List α}
    (hf : ∀ s a s', step s a = .ok s' → step' (f s) a = .ok (f s')) (h : Reaches step s l s') :
    Reaches step' (f s) l (f s') := by
  induction l generalizing s with
  | nil => rw [(reaches_nil _ _).mp h]; exact (reaches_nil _ _).mpr rfl
  | cons a l ih =>
    obtain ⟨m, hm, hrest⟩ := (reaches_cons _ _ _ _).mp h
    exact (reaches_cons _ _ _ _).mpr ⟨f m, hf s a m hm, ih hrest⟩

end Run
