import Mathlib.Algebra.Order.Monoid.Canonical.Defs
import Mathlib.Data.List.Chain
import Mathlib.Algebra.Ring.Nat
import Mathlib.Data.Set.Lattice
import Mathlib.Order.CompletePartialOrder
import Mathlib.Order.Interval.Set.Basic

/-!
# Intervals laid end to end

A sweep over a range takes it piece by piece: each piece is given by its start and its length, and
starts where its predecessor ends. Such pieces are disjoint, and together they are the range,
whatever their number and their lengths are.

## Main definitions

* `span` : the half-open interval with a start and a length.
* `EndToEnd p l q` : the pieces `l` lie one behind the other from `p` to `q`.

## Main results

* `EndToEnd.mem_iff`, `EndToEnd.mem_Icc_iff` : the union of the pieces.
* `EndToEnd.pairwise_disjoint` : the pieces are disjoint.
* `EndToEnd.isChain` : each piece starts where its predecessor ends.
* `EndToEnd.last_eq` : the last piece ends at the end.
* `endToEnd_range`, `EndToEnd.le_add_length_mul` : pieces of one length, and how far a number of
  pieces gets.
-/

namespace M57Card.Intervals

variable {α : Type*} [Add α]

/-- The half-open interval with a start and a length. -/
def span [Preorder α] (v : α × α) : Set α := Set.Ico v.1 (v.1 + v.2)

/-- The pieces lie one behind the other from `p` to `q`. -/
inductive EndToEnd : α → List (α × α) → α → Prop
  | nil (p : α) : EndToEnd p [] p
  | cons {p n q : α} {l : List (α × α)} (h : EndToEnd (p + n) l q) : EndToEnd p ((p, n) :: l) q

namespace EndToEnd

variable {p q : α} {l : List (α × α)}

/-- Each piece starts where its predecessor ends. -/
theorem isChain (h : EndToEnd p l q) : l.IsChain fun v w => w.1 = v.1 + v.2 := by
  induction h with
  | nil p => exact .nil
  | cons hrest ih =>
    refine List.isChain_cons.mpr ⟨fun w hw => ?_, ih⟩
    cases hrest with
    | nil => cases hw
    | cons _ =>
      obtain rfl := Option.some.inj hw
      rfl

/-- The pieces have one end only. -/
theorem unique {q' : α} (h : EndToEnd p l q) (h' : EndToEnd p l q') : q = q' := by
  induction h with
  | nil p =>
    cases h'
    rfl
  | cons _ ih =>
    cases h' with
    | cons hrest => exact ih hrest

theorem append {r : α} {l' : List (α × α)} (h : EndToEnd p l q) (h' : EndToEnd q l' r) :
    EndToEnd p (l ++ l') r := by
  induction h with
  | nil p => exact h'
  | cons _ ih => exact .cons (ih h')

/-- The last piece ends where all of them end. -/
theorem last_eq {v : α × α} (h : EndToEnd p l q) (hv : l.getLast? = some v) : q = v.1 + v.2 := by
  induction h with
  | nil p => cases hv
  | @cons p n q l hrest ih =>
    cases hrest with
    | nil =>
      obtain rfl := Option.some.inj hv
      rfl
    | cons hrest => exact ih (by rwa [List.getLast?_cons_cons] at hv)

variable [LinearOrder α] [CanonicallyOrderedAdd α]

theorem le (h : EndToEnd p l q) : p ≤ q := by
  induction h with
  | nil p => exact le_refl p
  | cons _ ih => exact le_self_add.trans ih

/-- No piece reaches behind the end. -/
theorem le_of_mem {v : α × α} (h : EndToEnd p l q) (hv : v ∈ l) : v.1 + v.2 ≤ q := by
  induction h with
  | nil p => cases hv
  | cons hrest ih =>
    rcases List.mem_cons.mp hv with rfl | hv
    · exact hrest.le
    · exact ih hv

/-- **The union of the pieces** is the range. -/
theorem mem_iff (h : EndToEnd p l q) (x : α) : (∃ v ∈ l, x ∈ span v) ↔ x ∈ Set.Ico p q := by
  induction h with
  | nil p =>
    simp only [List.not_mem_nil, false_and, exists_false, Set.Ico_self, Set.mem_empty_iff_false]
  | @cons p n q l hrest ih =>
    rw [List.exists_mem_cons_iff, ih]
    constructor
    · rintro (hx | hx)
      · exact ⟨hx.1, hx.2.trans_le hrest.le⟩
      · exact ⟨le_self_add.trans hx.1, hx.2⟩
    · intro hx
      rcases lt_or_ge x (p + n) with hlt | hge
      · exact .inl ⟨hx.1, hlt⟩
      · exact .inr ⟨hge, hx.2⟩

/-- The union of the pieces with their ends is the range with its end. -/
theorem mem_Icc_iff (h : EndToEnd p l q) (hl : l ≠ []) (x : α) :
    (∃ v ∈ l, x ∈ Set.Icc v.1 (v.1 + v.2)) ↔ x ∈ Set.Icc p q := by
  induction h with
  | nil p => exact absurd rfl hl
  | @cons p n q l hrest ih =>
    rw [List.exists_mem_cons_iff]
    cases l with
    | nil =>
      cases hrest
      simp
    | cons v l =>
      rw [ih (List.cons_ne_nil v l)]
      constructor
      · rintro (hx | hx)
        · exact ⟨hx.1, hx.2.trans hrest.le⟩
        · exact ⟨le_self_add.trans hx.1, hx.2⟩
      · intro hx
        rcases le_total x (p + n) with hle | hge
        · exact .inl ⟨hx.1, hle⟩
        · exact .inr ⟨hge, hx.2⟩

/-- The pieces are disjoint. -/
theorem pairwise_disjoint (h : EndToEnd p l q) :
    l.Pairwise fun v w => Disjoint (span v) (span w) := by
  induction h with
  | nil p => exact .nil
  | @cons p n q l hrest ih =>
    refine .cons (fun w hw => Set.disjoint_left.mpr fun x hx hxw => ?_) ih
    have hbehind := ((hrest.mem_iff x).mp ⟨w, hw, hxw⟩).1
    exact absurd hx.2 (not_lt.mpr hbehind)

end EndToEnd

/-- `n` pieces of the same length. -/
theorem endToEnd_range (p b n : ℕ) :
    EndToEnd p ((List.range n).map fun i => (p + i * b, b)) (p + n * b) := by
  induction n with
  | zero =>
    rw [Nat.zero_mul]
    exact .nil p
  | succ n ih =>
    rw [List.range_succ, List.map_append, Nat.succ_mul, ← Nat.add_assoc]
    exact ih.append (.cons (.nil _))

/-- Pieces that are not longer than `b` do not get further than `b` for each of them. -/
theorem EndToEnd.le_add_length_mul {p q b : ℕ} {l : List (ℕ × ℕ)} (h : EndToEnd p l q)
    (hb : ∀ v ∈ l, v.2 ≤ b) : q ≤ p + l.length * b := by
  induction h with
  | nil p => exact Nat.le_add_right p _
  | @cons p n q l hrest ih =>
    have hn : n ≤ b := hb (p, n) List.mem_cons_self
    calc
      q ≤ p + n + l.length * b := ih fun v hv => hb v (List.mem_cons_of_mem _ hv)
      _ ≤ p + (l.length + 1) * b := by
        rw [Nat.succ_mul]
        omega

end M57Card.Intervals
