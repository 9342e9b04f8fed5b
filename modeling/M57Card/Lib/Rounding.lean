import Mathlib.Data.Int.Log
import Mathlib.Data.Rat.Floor
import Mathlib.Tactic.Linarith
import Mathlib.Tactic.FieldSimp

/-!
# Rounding to a number of binary digits

A floating-point number of `p` binary digits nearest to a number is a multiple of the unit in the
last place. Below `2 ^ p` that unit divides 1, so every integer is such a multiple: rounding goes as
far as the next integer, and not past it.

## Main definitions

* `roundEven` : the nearest integer, the even one of two.
* `roundTo` : the nearest number of `p` digits; the exponent has no bounds.

## Main results

* `le_roundTo`, `roundTo_le` : no integer is passed.
-/

namespace M57Card.Rounding

/-- The nearest integer, the even one of two. -/
def roundEven (x : ℚ) : ℤ :=
  if x - ⌊x⌋ < 1 / 2 then ⌊x⌋
  else if 1 / 2 < x - ⌊x⌋ then ⌊x⌋ + 1
  else ⌊x⌋ + ⌊x⌋ % 2

theorem le_roundEven {n : ℤ} {x : ℚ} (h : (n : ℚ) ≤ x) : n ≤ roundEven x := by
  have hfloor : n ≤ ⌊x⌋ := Int.le_floor.mpr h
  unfold roundEven
  split_ifs <;> omega

theorem roundEven_le {n : ℤ} {x : ℚ} (h : x ≤ n) : roundEven x ≤ n := by
  have hfloor : (⌊x⌋ : ℚ) ≤ x := Int.floor_le x
  rcases (Int.floor_le_iff.mpr (h.trans_lt (lt_add_one _))).eq_or_lt with heq | hlt
  · have hx : x - ⌊x⌋ < 1 / 2 := by
      rw [heq]
      linarith
    rw [roundEven, if_pos hx, heq]
  · unfold roundEven
    split_ifs <;> omega

/-- The unit in the last of `p` places. -/
def ulp (p : ℕ) (x : ℚ) : ℚ := 2 ^ (Int.log 2 |x| - (p - 1))

/-- The nearest number of `p` binary digits. -/
def roundTo (p : ℕ) (x : ℚ) : ℚ := roundEven (x / ulp p x) * ulp p x

variable {p : ℕ} {x : ℚ}

/-- Below `2 ^ p` the unit divides 1. -/
theorem exists_ulp_inv (hp : 0 < p) (hx : |x| < 2 ^ p) : ∃ k : ℕ, ulp p x = ((2 : ℚ) ^ k)⁻¹ := by
  have hlog : Int.log 2 |x| ≤ p - 1 := by
    rcases (abs_nonneg x).eq_or_lt with h0 | hpos
    · rw [Int.log_of_right_le_zero 2 h0.ge]
      omega
    · have hlt := (Int.lt_zpow_iff_log_lt (b := 2) (x := p) (by decide) hpos).mp
        (by exact_mod_cast hx)
      omega
  refine ⟨(p - 1 - Int.log 2 |x|).toNat, ?_⟩
  rw [ulp, ← zpow_natCast, ← zpow_neg, Int.toNat_of_nonneg (by omega)]
  congr 1
  omega

/-- Rounding does not go below an integer. -/
theorem le_roundTo {n : ℤ} (hp : 0 < p) (hx : |x| < 2 ^ p) (h : (n : ℚ) ≤ x) :
    (n : ℚ) ≤ roundTo p x := by
  obtain ⟨k, hk⟩ := exists_ulp_inv hp hx
  have hround : n * 2 ^ k ≤ roundEven (x * 2 ^ k) := by
    refine le_roundEven ?_
    push_cast
    exact mul_le_mul_of_nonneg_right h (by positivity)
  rw [roundTo, hk, div_inv_eq_mul, ← div_eq_mul_inv, le_div_iff₀ (by positivity)]
  exact_mod_cast hround

/-- Rounding does not go above an integer. -/
theorem roundTo_le {n : ℤ} (hp : 0 < p) (hx : |x| < 2 ^ p) (h : x ≤ n) : roundTo p x ≤ n := by
  obtain ⟨k, hk⟩ := exists_ulp_inv hp hx
  have hround : roundEven (x * 2 ^ k) ≤ n * 2 ^ k := by
    refine roundEven_le ?_
    push_cast
    exact mul_le_mul_of_nonneg_right h (by positivity)
  rw [roundTo, hk, div_inv_eq_mul, ← div_eq_mul_inv, div_le_iff₀ (by positivity)]
  exact_mod_cast hround

/-- An integer is not rounded. -/
theorem roundTo_intCast {n : ℤ} (hp : 0 < p) (hn : |(n : ℚ)| < 2 ^ p) : roundTo p (n : ℚ) = n :=
  le_antisymm (roundTo_le hp hn le_rfl) (le_roundTo hp hn le_rfl)

end M57Card.Rounding
