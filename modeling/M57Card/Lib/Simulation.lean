import Mathlib.Data.List.Basic

/-!
# Simulation

A program takes inputs one after the other and shows a label for each. A specification says between
which states a label may stand. Where every good step of the program is one of the specification,
every good run of the program is one of the specification.

## Main definitions

* `Shown step s ls` : the labels of a run.
* `Always step good s ls` : every step of a run is good.
* `Accepts Step a ms a'` : the labels lead from one state of the specification to another.

## Main results

* `accepts_of_simulates` : runs of a program that is simulated.
* `always_of_invariant` : what every step of a run does, by an invariant.
-/

namespace M57Card.Simulation

variable {S L M A : Type*}

/-- The labels of a run. -/
def Shown (step : S → L → S × M) : S → List L → List M
  | _, [] => []
  | s, l :: ls => (step s l).2 :: Shown step (step s l).1 ls

/-- The state behind a run. -/
def behind (step : S → L → S × M) (s : S) (ls : List L) : S :=
  ls.foldl (fun s l => (step s l).1) s

/-- Every step of a run is good. -/
def Always (step : S → L → S × M) (good : S → L → Prop) : S → List L → Prop
  | _, [] => True
  | s, l :: ls => good s l ∧ Always step good (step s l).1 ls

instance Always.decidable {step : S → L → S × M} {good : S → L → Prop}
    [∀ s l, Decidable (good s l)] : ∀ (s : S) (ls : List L), Decidable (Always step good s ls)
  | _, [] => .isTrue trivial
  | s, l :: ls => @instDecidableAnd _ _ _ (Always.decidable (step s l).1 ls)

theorem always_append {step : S → L → S × M} {good : S → L → Prop} {s : S} {ls ls' : List L} :
    Always step good s (ls ++ ls') ↔
      Always step good s ls ∧ Always step good (behind step s ls) ls' := by
  induction ls generalizing s with
  | nil => exact (and_iff_right trivial).symm
  | cons l ls ih =>
    rw [List.cons_append, Always, Always, ih, and_assoc]
    rfl

/-- Every good step keeps an invariant and has a property; so has every step of a good run. -/
theorem always_of_invariant {step : S → L → S × M} {good safe : S → L → Prop} {P : S → Prop}
    (hstep : ∀ s l, P s → good s l → safe s l ∧ P (step s l).1) {ls : List L} {s : S} (hs : P s)
    (hgood : Always step good s ls) : Always step safe s ls ∧ P (behind step s ls) := by
  induction ls generalizing s with
  | nil => exact ⟨trivial, hs⟩
  | cons l ls ih =>
    obtain ⟨hsafe, hs'⟩ := hstep s l hs hgood.1
    obtain ⟨hrest, hend⟩ := ih hs' hgood.2
    exact ⟨⟨hsafe, hrest⟩, hend⟩

/-- The labels `ms` lead from `a` to `a'`. -/
inductive Accepts (Step : A → M → A → Prop) : A → List M → A → Prop
  | nil (a : A) : Accepts Step a [] a
  | cons {a a₁ a' : A} {m : M} {ms : List M} (hstep : Step a m a₁) (hrest : Accepts Step a₁ ms a') :
      Accepts Step a (m :: ms) a'

/-- A good run of a program is a run of the specification that simulates its good steps. -/
theorem accepts_of_simulates {step : S → L → S × M} {good : S → L → Prop}
    {Step : A → M → A → Prop} {R : S → A → Prop}
    (hsim : ∀ s a l, R s a → good s l → ∃ a', Step a (step s l).2 a' ∧ R (step s l).1 a')
    {ls : List L} {s : S} (hgood : Always step good s ls) {a : A} (hR : R s a) :
    ∃ a', Accepts Step a (Shown step s ls) a' ∧ R (behind step s ls) a' := by
  induction ls generalizing s a with
  | nil => exact ⟨a, .nil a, hR⟩
  | cons l ls ih =>
    obtain ⟨a₁, hstep, hR₁⟩ := hsim s a l hR hgood.1
    obtain ⟨a', hrest, hR'⟩ := ih hgood.2 hR₁
    exact ⟨a', .cons hstep hrest, hR'⟩

end M57Card.Simulation
