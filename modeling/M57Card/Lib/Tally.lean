import Mathlib.Data.Nat.Count

/-!
# Counting the indices with a property

`Nat.count p n` is the number of indices below `n` with the property `p`. The counters of a family
of parties are such numbers: when one party moves, the property changes at one index.

## Main results

* `count_eq_of_iff` : the number depends on the property only.
* `count_of_gain`, `count_of_loss` : one index gains or loses the property.
* `forall_of_count_le` : a stronger property that holds as often holds at the same indices.
-/

namespace M57Card.Tally

variable {p q : ℕ → Prop} [DecidablePred p] [DecidablePred q] {n i : ℕ}

theorem count_eq_of_iff (h : ∀ k < n, p k ↔ q k) : Nat.count p n = Nat.count q n :=
  le_antisymm (Nat.count_mono_left fun k hk => (h k hk).mp)
    (Nat.count_mono_left fun k hk => (h k hk).mpr)

/-- One index gains the property. -/
theorem count_of_gain (hi : i < n) (hp : ¬ p i) (hq : q i) (h : ∀ k, k ≠ i → (p k ↔ q k)) :
    Nat.count q n = Nat.count p n + 1 := by
  induction n with
  | zero => exact absurd hi (Nat.not_lt_zero i)
  | succ n ih =>
    rw [Nat.count_succ, Nat.count_succ]
    by_cases hin : i = n
    · subst hin
      rw [if_pos hq, if_neg hp, count_eq_of_iff fun k hk => h k hk.ne]
    · rw [ih (by omega)]
      have hn : p n ↔ q n := h n fun heq => hin heq.symm
      by_cases hpn : p n
      · rw [if_pos hpn, if_pos (hn.mp hpn)]
      · rw [if_neg hpn, if_neg fun hqn => hpn (hn.mpr hqn)]

/-- One index loses the property. -/
theorem count_of_loss (hi : i < n) (hp : p i) (hq : ¬ q i) (h : ∀ k, k ≠ i → (p k ↔ q k)) :
    Nat.count q n + 1 = Nat.count p n :=
  (count_of_gain hi hq hp fun k hk => (h k hk).symm).symm

/-- A property that implies another one and holds at least as often holds at the same indices. -/
theorem forall_of_count_le (hpq : ∀ k, p k → q k) (hle : Nat.count q n ≤ Nat.count p n) :
    ∀ k < n, q k → p k := by
  induction n with
  | zero => exact fun k hk => absurd hk (Nat.not_lt_zero k)
  | succ n ih =>
    rw [Nat.count_succ, Nat.count_succ] at hle
    have hmono : Nat.count p n ≤ Nat.count q n := Nat.count_mono_left fun k _ => hpq k
    intro k hk hqk
    by_cases hpn : p n
    · rw [if_pos hpn, if_pos (hpq n hpn)] at hle
      by_cases hkn : k = n
      · rwa [hkn]
      · exact ih (by omega) k (by omega) hqk
    · rw [if_neg hpn] at hle
      by_cases hqn : q n
      · rw [if_pos hqn] at hle
        omega
      · rw [if_neg hqn] at hle
        have hne : k ≠ n := fun heq => hqn (heq ▸ hqk)
        exact ih hle k (by omega) hqk

end M57Card.Tally
