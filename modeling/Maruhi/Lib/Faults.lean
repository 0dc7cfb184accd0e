import Mathlib.Tactic.Common

/-!
# Programs that are refused or die

A program over a state ends with a value, is refused for a reason, or dies with a defect. The state stays as the
program left it: what is undone is undone by whoever runs it.
-/

namespace Faults

inductive Exit (R A : Type)
  | done (value : A)
  | refused (reason : R)
  | died
  deriving DecidableEq, Repr

def Program (S R A : Type) : Type := S → Exit R A × S

namespace Program
variable {S R A B : Type}

instance : Monad (Program S R) where
  pure value := fun s => (.done value, s)
  bind p next := fun s =>
    match p s with
    | (.done value, s') => next value s'
    | (.refused reason, s') => (.refused reason, s')
    | (.died, s') => (.died, s')

def get : Program S R S := fun s => (.done s, s)

def modify (f : S → S) : Program S R Unit := fun s => (.done (), f s)

def refuse (reason : R) : Program S R A := fun s => (.refused reason, s)

def die : Program S R A := fun s => (.died, s)

/-- A check: refused where it fails. -/
def require (ok : Bool) (reason : R) : Program S R Unit := if ok then pure () else refuse reason

/-- A value, or a defect where there is none. -/
def orDie : Option A → Program S R A
  | some value => pure value
  | none => die

/-- What runs before a defect goes on. -/
def onDefect (handler : S → S) (p : Program S R A) : Program S R A := fun s =>
  match p s with
  | (.died, s') => (.died, handler s')
  | (.done value, s') => (.done value, s')
  | (.refused reason, s') => (.refused reason, s')

/-- What runs however the program ends. -/
def ensuring (finalizer : S → S) (p : Program S R A) : Program S R A := fun s => ((p s).1, finalizer (p s).2)

end Program

open Program

/-! ## Triples -/

/-- From a state of `P`: `Q` of the value where the program is done, `E` where it is refused, `D` where it died. -/
def Triple {S R A : Type} (P : S → Prop) (p : Program S R A) (Q : A → S → Prop) (E D : S → Prop) : Prop :=
  ∀ s, P s → match p s with
    | (.done value, s') => Q value s'
    | (.refused _, s') => E s'
    | (.died, s') => D s'

namespace Triple
variable {S R A B : Type} {P P' : S → Prop} {p : Program S R A} {Q Q' : A → S → Prop} {E E' D D' : S → Prop}

theorem done {value : A} (h : ∀ s, P s → Q value s) : Triple P (pure value : Program S R A) Q E D := h

theorem bind {next : A → Program S R B} {Q' : B → S → Prop} (hp : Triple P p Q E D)
    (hnext : ∀ value, Triple (Q value) (next value) Q' E D) : Triple P (p >>= next) Q' E D := by
  intro s hs
  have h := hp s hs
  change match (match p s with
    | (.done value, s') => next value s'
    | (.refused reason, s') => (.refused reason, s')
    | (.died, s') => (.died, s')) with
    | (.done value, s') => Q' value s'
    | (.refused _, s') => E s'
    | (.died, s') => D s'
  revert h
  rcases p s with ⟨(value | reason | _), s'⟩ <;> intro h
  · exact hnext value s' h
  · exact h
  · exact h

theorem conseq (hp : Triple P p Q E D) (hP : ∀ s, P' s → P s) (hQ : ∀ value s, Q value s → Q' value s)
    (hE : ∀ s, E s → E' s) (hD : ∀ s, D s → D' s) : Triple P' p Q' E' D' := by
  intro s hs
  have h := hp s (hP s hs)
  revert h
  rcases p s with ⟨(value | reason | _), s'⟩ <;> intro h
  · exact hQ value s' h
  · exact hE s' h
  · exact hD s' h

theorem pre (hp : Triple P p Q E D) (hP : ∀ s, P' s → P s) : Triple P' p Q E D :=
  hp.conseq hP (fun _ _ h => h) (fun _ h => h) fun _ h => h

theorem post (hp : Triple P p Q E D) (hQ : ∀ value s, Q value s → Q' value s) : Triple P p Q' E D :=
  hp.conseq (fun _ h => h) hQ (fun _ h => h) fun _ h => h

theorem get {Q : S → S → Prop} (h : ∀ s, P s → Q s s) : Triple P (Program.get : Program S R S) Q E D := h

theorem modify {f : S → S} {Q : Unit → S → Prop} (h : ∀ s, P s → Q () (f s)) :
    Triple P (Program.modify f : Program S R Unit) Q E D := h

theorem refuse {reason : R} (h : ∀ s, P s → E s) : Triple P (Program.refuse reason : Program S R A) Q E D := h

theorem die (h : ∀ s, P s → D s) : Triple P (Program.die : Program S R A) Q E D := h

theorem require {ok : Bool} {reason : R} {Q : Unit → S → Prop} (hok : ok = true → ∀ s, P s → Q () s)
    (hE : ∀ s, P s → E s) : Triple P (Program.require ok reason : Program S R Unit) Q E D := by
  unfold Program.require
  cases hb : ok with
  | true => exact hok hb
  | false => exact hE

theorem orDie {o : Option A} (hsome : ∀ value, o = some value → ∀ s, P s → Q value s) (hD : ∀ s, P s → D s) :
    Triple P (Program.orDie o : Program S R A) Q E D := by
  cases ho : o with
  | some value => exact hsome value ho
  | none => exact hD

theorem assuming {φ : Prop} (h : φ → Triple P p Q E D) : Triple (fun s => φ ∧ P s) p Q E D := fun s hs => h hs.1 s hs.2

theorem knowing {φ : Prop} (hφ : ∀ s, P s → φ) (h : φ → Triple P p Q E D) : Triple P p Q E D := fun s hs => h (hφ s hs) s hs

theorem onDefect {handler : S → S} (hp : Triple P p Q E D) (h : ∀ s, D s → D' (handler s)) :
    Triple P (Program.onDefect handler p) Q E D' := by
  intro s hs
  have hrun := hp s hs
  unfold Program.onDefect
  revert hrun
  rcases p s with ⟨(value | reason | _), s'⟩ <;> intro hrun
  · exact hrun
  · exact hrun
  · exact h s' hrun

theorem ensuring {finalizer : S → S} (hp : Triple P p Q E D) (hQ : ∀ value s, Q value s → Q' value (finalizer s))
    (hE : ∀ s, E s → E' (finalizer s)) (hD : ∀ s, D s → D' (finalizer s)) :
    Triple P (Program.ensuring finalizer p) Q' E' D' := by
  intro s hs
  have hrun := hp s hs
  unfold Program.ensuring
  revert hrun
  rcases p s with ⟨(value | reason | _), s'⟩ <;> intro hrun
  · exact hQ value s' hrun
  · exact hE s' hrun
  · exact hD s' hrun

end Triple

end Faults
