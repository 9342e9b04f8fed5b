import Mathlib.Algebra.BigOperators.Group.List.Basic
import Mathlib.Algebra.Ring.Nat

/-!
# Totals over a list

A counter that is increased by a value for every entry of a list with some property: the total of
these values, modulo the width of the counter. Totals over properties that exclude each other add
up, and the classes of a list add up to the whole.

## Main definitions

* `totalOf f p l` : the total of the values `f` of the entries of `l` with the property `p`.

## Main results

* `foldl_ite_add_mod` : a counter with a width has the total modulo this width.
* `totalOf_eq_add` : the total over a property, by a stronger property.
* `sum_range_totalOf` : the totals of the classes add up to the total of the list.
-/

namespace M57Card.Totals

variable {ι : Type*} (f : ι → ℕ) (p q : ι → Prop) [DecidablePred p] [DecidablePred q]

/-- The total of the values of the entries with a property. -/
def totalOf (l : List ι) : ℕ := (l.map fun a => if p a then f a else 0).sum

@[simp] theorem totalOf_nil : totalOf f p [] = 0 := rfl

theorem totalOf_cons (a : ι) (l : List ι) :
    totalOf f p (a :: l) = (if p a then f a else 0) + totalOf f p l := List.sum_cons

variable {p q} in
theorem totalOf_congr {l : List ι} (h : ∀ a ∈ l, p a ↔ q a) : totalOf f p l = totalOf f q l := by
  induction l with
  | nil => rfl
  | cons a l ih =>
    obtain ⟨ha, hl⟩ := List.forall_mem_cons.mp h
    rw [totalOf_cons, totalOf_cons, ih hl]
    simp only [ha]

variable {p} in
theorem totalOf_eq_zero {l : List ι} (h : ∀ a ∈ l, ¬ p a) : totalOf f p l = 0 := by
  induction l with
  | nil => rfl
  | cons a l ih =>
    obtain ⟨ha, hl⟩ := List.forall_mem_cons.mp h
    rw [totalOf_cons, if_neg ha, ih hl]

variable {p q} in
/-- The total over a property is the total over a stronger one, and the total of the rest. -/
theorem totalOf_eq_add {l : List ι} (h : ∀ a ∈ l, q a → p a) :
    totalOf f p l = totalOf f q l + totalOf f (fun a => ¬ q a ∧ p a) l := by
  induction l with
  | nil => rfl
  | cons a l ih =>
    obtain ⟨ha, hl⟩ := List.forall_mem_cons.mp h
    rw [totalOf_cons, totalOf_cons, totalOf_cons, ih hl]
    by_cases hq : q a
    · rw [if_pos hq, if_pos (ha hq), if_neg fun hrest => hrest.1 hq]
      omega
    · simp only [hq, not_false_iff, true_and, if_false]
      omega

/-- One class of its own. -/
theorem sum_range_ite {k n : ℕ} (v : ℕ) (hk : k < n) :
    ((List.range n).map fun i => if k = i then v else 0).sum = v := by
  induction n with
  | zero => exact absurd hk (Nat.not_lt_zero k)
  | succ n ih =>
    rw [List.range_succ, List.map_append, List.sum_append, List.map_singleton, List.sum_singleton]
    rcases Nat.lt_succ_iff_lt_or_eq.mp hk with hlt | rfl
    · rw [ih hlt, if_neg hlt.ne, Nat.add_zero]
    · have hzero : ((List.range k).map fun i => if k = i then v else 0).sum = 0 := by
        refine List.sum_eq_zero fun x hx => ?_
        obtain ⟨i, hi, rfl⟩ := List.mem_map.mp hx
        exact if_neg (List.mem_range.mp hi).ne'
      rw [hzero, if_pos rfl, Nat.zero_add]

/-- **The classes of a list add up to the whole.** -/
theorem sum_range_totalOf {c : ι → ℕ} {n : ℕ} {l : List ι} (h : ∀ a ∈ l, c a < n) :
    ((List.range n).map fun i => totalOf f (fun a => c a = i) l).sum = (l.map f).sum := by
  induction l with
  | nil => exact List.sum_eq_zero fun x hx => (List.mem_map.mp hx).elim fun _ hx => hx.2.symm
  | cons a l ih =>
    obtain ⟨ha, hl⟩ := List.forall_mem_cons.mp h
    simp only [totalOf_cons, List.sum_map_add, ih hl, sum_range_ite (f a) ha, List.map_cons,
      List.sum_cons]

variable {p} in
/-- **A counter with a width** has the total modulo this width. -/
theorem foldl_ite_add_mod {m s : ℕ} (hs : s < m) (l : List ι) :
    l.foldl (fun s a => if p a then (s + f a) % m else s) s = (s + totalOf f p l) % m := by
  induction l generalizing s with
  | nil => exact (Nat.mod_eq_of_lt hs).symm
  | cons a l ih =>
    have hm : 0 < m := Nat.zero_lt_of_lt hs
    rw [List.foldl_cons, totalOf_cons]
    by_cases ha : p a
    · rw [if_pos ha, if_pos ha, ih (Nat.mod_lt _ hm), Nat.mod_add_mod, Nat.add_assoc]
    · rw [if_neg ha, if_neg ha, ih hs, Nat.zero_add]

end M57Card.Totals
