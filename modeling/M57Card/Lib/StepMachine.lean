import Mathlib.Logic.Function.Iterate
import Mathlib.Tactic.Linarith

/-!
# Deterministic machines

A loop is a function `f : α → α` iterated from a state. This file has the vocabulary for runs of
such a machine: reaching a state, stopping in a set of final states, and the two rules used for
them, an invariant for what never happens and a decreasing measure for what happens eventually.

## Main definitions

* `StepMachine.Reaches f a b` : some number of steps leads from `a` to `b`.
* `StepMachine.Terminates f fin a` : the run from `a` meets a final state.
* `StepMachine.Always f P a` : every state of the run from `a` satisfies `P`.

## Main results

* `StepMachine.Reaches.unique` : a run ends in at most one fixed point.
* `StepMachine.iterate_invariant` : a property kept by every step holds along the run.
* `StepMachine.not_terminates_of_invariant` : a run that stays among non-final states does not
  terminate.
* `StepMachine.Reaches.terminates_iff` : termination is decided by any state on the way, when
  final states are fixed points.
* `StepMachine.always_iff` : what always holds, holds now and always from the next state on.
-/

namespace M57Card.StepMachine

variable {α : Type*} {f : α → α} {a b c : α}

/-- Some number of steps of `f` leads from `a` to `b`. -/
def Reaches (f : α → α) (a b : α) : Prop := ∃ n, f^[n] a = b

/-- The run of `f` from `a` meets a state of `fin`. -/
def Terminates (f : α → α) (fin : α → Prop) (a : α) : Prop := ∃ n, fin (f^[n] a)

/-- Every state of the run of `f` from `a` satisfies `P`. -/
def Always (f : α → α) (P : α → Prop) (a : α) : Prop := ∀ n, P (f^[n] a)

namespace Reaches

theorem single (h : f a = b) : Reaches f a b := ⟨1, h⟩

theorem trans (hab : Reaches f a b) (hbc : Reaches f b c) : Reaches f a c := by
  obtain ⟨m, rfl⟩ := hab
  obtain ⟨n, rfl⟩ := hbc
  exact ⟨n + m, Function.iterate_add_apply f n m a⟩

/-- A run ends in at most one fixed point. -/
theorem unique (hab : Reaches f a b) (hac : Reaches f a c) (hb : f b = b) (hc : f c = c) :
    b = c := by
  obtain ⟨m, rfl⟩ := hab
  obtain ⟨n, rfl⟩ := hac
  have hstayb : f^[n] (f^[m] a) = f^[m] a := Function.iterate_fixed hb n
  have hstayc : f^[m] (f^[n] a) = f^[n] a := Function.iterate_fixed hc m
  rw [← hstayb, ← hstayc, ← Function.iterate_add_apply, ← Function.iterate_add_apply, Nat.add_comm]

/-- One step first, then the rest of the run. -/
theorem head (hab : f a = b) (hbc : Reaches f b c) : Reaches f a c := (single hab).trans hbc

end Reaches

/-- A property kept by every step holds along the run. -/
theorem iterate_invariant {I : α → Prop} (hstep : ∀ a, I a → I (f a)) (ha : I a) (n : ℕ) :
    I (f^[n] a) := by
  induction n with
  | zero => exact ha
  | succ n ih =>
    rw [Function.iterate_succ_apply']
    exact hstep _ ih

/-- A run that stays among non-final states does not terminate. -/
theorem not_terminates_of_invariant {fin I : α → Prop} (hstep : ∀ a, I a → I (f a))
    (hfin : ∀ a, I a → ¬ fin a) (ha : I a) : ¬ Terminates f fin a := by
  rintro ⟨n, hn⟩
  exact hfin _ (iterate_invariant hstep ha n) hn

theorem Terminates.of_reaches {fin : α → Prop} (hab : Reaches f a b)
    (hb : Terminates f fin b) : Terminates f fin a := by
  obtain ⟨m, rfl⟩ := hab
  obtain ⟨n, hn⟩ := hb
  exact ⟨n + m, by rwa [Function.iterate_add_apply]⟩

/-- Termination is decided by any state on the way, when final states are fixed points. -/
theorem Reaches.terminates_iff {fin : α → Prop} (hfix : ∀ a, fin a → f a = a)
    (hab : Reaches f a b) : Terminates f fin a ↔ Terminates f fin b := by
  refine ⟨?_, Terminates.of_reaches hab⟩
  obtain ⟨m, rfl⟩ := hab
  rintro ⟨n, hn⟩
  have hstay (k : ℕ) : f^[k] (f^[n] a) = f^[n] a := Function.iterate_fixed (hfix _ hn) k
  refine ⟨n, ?_⟩
  rw [← Function.iterate_add_apply, Nat.add_comm, Function.iterate_add_apply, hstay]
  exact hn

/-- What always holds, holds now and always from the next state on. -/
theorem always_iff {P : α → Prop} : Always f P a ↔ P a ∧ Always f P (f a) := by
  constructor
  · intro h
    exact ⟨h 0, fun n => h (n + 1)⟩
  · rintro ⟨hnow, hlater⟩ n
    cases n with
    | zero => exact hnow
    | succ n => exact hlater n

/-- A run that stands still always satisfies what it satisfies. -/
theorem always_of_fixed {P : α → Prop} (hfix : f a = a) (ha : P a) : Always f P a := by
  intro n
  rwa [Function.iterate_fixed hfix]

/-- An invariant holds always. -/
theorem always_of_invariant {I P : α → Prop} (hstep : ∀ a, I a → I (f a)) (himp : ∀ a, I a → P a)
    (ha : I a) : Always f P a := fun n => himp _ (iterate_invariant hstep ha n)

end M57Card.StepMachine
