import M57Card.Lib.Decimal

/-!
# Numerals of C

`strtoul` with base 0 takes the base from the front of the text: `0x` for hexadecimal, `0` for octal
numerals, decimal otherwise. It stops at the first character that is no digit of this base.

## Main definitions

* `digitVal`, `numeralValue` : digits and their value.
* `baseOf`, `strtoul`.

## Main results

* `strtoul_toDigits_append` : a number printed in decimal is read back.
-/

namespace M57Card.Numerals

open Decimal (isSpace)

/-- The value of a digit in a base up to 36. -/
def digitVal (c : Char) : ℕ :=
  if c.isDigit then c.toNat - 48
  else if c.isLower then c.toNat - 87
  else if c.isUpper then c.toNat - 55
  else 36

/-- The digits at the front of a text. -/
def numeral (base : ℕ) (s : List Char) : List Char := s.takeWhile (digitVal · < base)

/-- The value of digits. -/
def numeralValue (base : ℕ) (digits : List Char) : ℕ :=
  digits.foldl (fun n c => base * n + digitVal c) 0

/-- The base that the front of a numeral tells, and its digits. -/
def baseOf (s : List Char) : ℕ × List Char :=
  if s.head? = some '0' then
    if (s[1]? = some 'x' ∨ s[1]? = some 'X') ∧ (s[2]?.any fun c => digitVal c < 16) then
      (16, s.drop 2)
    else (8, s)
  else (10, s)

/-- `ULONG_MAX`. -/
def ULONG_MAX : ℕ := 2 ^ 64 - 1

/-- `strtoul` with base 0, with the text behind the numeral. -/
def strtoul (s : List Char) : ℕ × List Char :=
  let t := s.dropWhile isSpace
  let minus := t.head? == some '-'
  let u := if t.head? = some '-' ∨ t.head? = some '+' then t.tail else t
  let (base, digits) := baseOf u
  let n := numeralValue base (numeral base digits)
  if numeral base digits = [] then (0, s)
  else
    (if ULONG_MAX < n then ULONG_MAX else if minus then (2 ^ 64 - n) % 2 ^ 64 else n,
      digits.drop (numeral base digits).length)

/-! ### Printed numbers -/

theorem digitVal_of_isDigit {c : Char} (hc : c.isDigit = true) :
    digitVal c = c.toNat - 48 ∧ digitVal c < 10 := by
  rw [digitVal, if_pos hc]
  simp only [Char.isDigit, Bool.and_eq_true, decide_eq_true_eq] at hc
  have hle : c.toNat ≤ 57 := hc.2
  omega

theorem numeralValue_toDigits (n : ℕ) : numeralValue 10 (Nat.toDigits 10 n) = n := by
  have hfold : ∀ (l : List Char) (m : ℕ), (∀ c ∈ l, c.isDigit = true) →
      l.foldl (fun n c => 10 * n + digitVal c) m = Nat.ofDigitChars 10 l m := by
    intro l
    induction l with
    | nil => intro m _; rfl
    | cons c l ih =>
      intro m hl
      rw [List.forall_mem_cons] at hl
      rw [List.foldl_cons, ih _ hl.2, Nat.ofDigitChars_cons, (digitVal_of_isDigit hl.1).1]
      rfl
  rw [numeralValue, hfold _ 0 fun c hc => Nat.isDigit_of_mem_toDigits (by decide) (by decide) hc,
    Nat.ofDigitChars_ten_toDigits]

/-- A printed number other than zero has no zero in front. -/
theorem head?_toDigits_ne {n : ℕ} (hn : n ≠ 0) : (Nat.toDigits 10 n).head? ≠ some '0' := by
  induction n using Nat.strongRecOn with
  | _ n ih =>
    by_cases hlt : n < 10
    · rw [Nat.toDigits_of_lt_base hlt, List.head?_cons]
      intro heq
      have hnat := congrArg Char.toNat (Option.some.inj heq)
      rw [Nat.toNat_digitChar_of_lt_ten hlt] at hnat
      exact hn (by simpa using hnat)
    · rw [Nat.toDigits_of_base_le (by decide) (Nat.le_of_not_lt hlt)]
      have hhead := ih (n / 10) (by omega) (by omega)
      obtain ⟨c, r, hcons⟩ := List.exists_cons_of_ne_nil (@Nat.toDigits_ne_nil (n / 10) 10)
      rw [hcons] at hhead ⊢
      exact hhead

theorem numeral_append {base : ℕ} {l rest : List Char} (hl : ∀ c ∈ l, digitVal c < base)
    (hrest : ∀ c ∈ rest.head?, base ≤ digitVal c) : numeral base (l ++ rest) = l := by
  rw [numeral, List.takeWhile_append_of_pos fun c hc => decide_eq_true (hl c hc)]
  cases rest with
  | nil => rw [List.takeWhile_nil, List.append_nil]
  | cons c rest =>
    have hc : ¬ digitVal c < base := Nat.not_lt.mpr (hrest c rfl)
    rw [List.takeWhile_cons_of_neg (by simpa using hc), List.append_nil]

/-- A numeral that begins with a digit has no spaces and no sign to skip. -/
theorem strtoul_of_isDigit {s digits : List Char} {base : ℕ}
    (hs : ∀ c ∈ s.head?, c.isDigit = true) (hbase : baseOf s = (base, digits))
    (hne : numeral base digits ≠ []) (hlt : numeralValue base (numeral base digits) < 2 ^ 64) :
    strtoul s =
      (numeralValue base (numeral base digits), digits.drop (numeral base digits).length) := by
  cases s with
  | nil =>
    obtain ⟨rfl, rfl⟩ := Prod.mk.inj hbase
    exact absurd rfl hne
  | cons c s =>
    have hc := hs c rfl
    have hkeep : (c :: s).dropWhile isSpace = c :: s :=
      List.dropWhile_cons_of_neg (by rw [Decimal.isSpace_of_isDigit hc]; decide)
    have hminus : c ≠ '-' := fun heq => absurd (heq ▸ hc) (by decide)
    have hplus : c ≠ '+' := fun heq => absurd (heq ▸ hc) (by decide)
    have hmax : ¬ ULONG_MAX < numeralValue base (numeral base digits) := by
      rw [ULONG_MAX]
      omega
    rw [strtoul, hkeep]
    simp only [List.head?_cons, Option.some.injEq, hminus, hplus, or_self, if_false, hbase, hne,
      hmax]
    simp [hminus]

/-- A number printed in decimal is read back. -/
theorem strtoul_toDigits_append {n : ℕ} (hn : n < 2 ^ 64) {rest : List Char}
    (hrest : ∀ c ∈ rest.head?, 10 ≤ digitVal c ∧ c ≠ 'x' ∧ c ≠ 'X') :
    strtoul (Nat.toDigits 10 n ++ rest) = (n, rest) := by
  have hdigits : ∀ c ∈ Nat.toDigits 10 n, c.isDigit = true := fun c hc =>
    Nat.isDigit_of_mem_toDigits (by decide) (by decide) hc
  have hhead : ∀ c ∈ (Nat.toDigits 10 n ++ rest).head?, c.isDigit = true := by
    obtain ⟨d, r, hcons⟩ := List.exists_cons_of_ne_nil (@Nat.toDigits_ne_nil n 10)
    rw [hcons] at hdigits ⊢
    intro c hc
    obtain rfl := Option.some.inj hc
    exact hdigits d List.mem_cons_self
  rcases Nat.eq_zero_or_pos n with rfl | hpos
  · -- a zero alone is an octal numeral
    rw [Nat.toDigits_zero] at hhead ⊢
    have hbase : baseOf (['0'] ++ rest) = (8, ['0'] ++ rest) := by
      have hzero : (['0'] ++ rest).head? = some '0' := rfl
      rw [baseOf, if_pos hzero, if_neg]
      rintro ⟨hx, -⟩
      rw [List.getElem?_append_right (by simp), List.length_singleton, Nat.sub_self,
        ← List.head?_eq_getElem?] at hx
      rcases hx with hx | hx
      · exact (hrest _ hx).2.1 rfl
      · exact (hrest _ hx).2.2 rfl
    have hnum : numeral 8 (['0'] ++ rest) = ['0'] :=
      numeral_append (List.forall_mem_singleton.mpr (by decide)) fun c hc =>
        le_trans (by decide) (hrest c hc).1
    rw [strtoul_of_isDigit hhead hbase (by rw [hnum]; decide) (by rw [hnum]; decide), hnum]
    rfl
  · have hne : (Nat.toDigits 10 n ++ rest).head? ≠ some '0' := by
      have h0 := head?_toDigits_ne hpos.ne'
      obtain ⟨d, r, hcons⟩ := List.exists_cons_of_ne_nil (@Nat.toDigits_ne_nil n 10)
      rw [hcons] at h0 ⊢
      exact h0
    have hnum : numeral 10 (Nat.toDigits 10 n ++ rest) = Nat.toDigits 10 n :=
      numeral_append (fun c hc => (digitVal_of_isDigit (hdigits c hc)).2) fun c hc =>
        (hrest c hc).1
    have hvalue : numeralValue 10 (numeral 10 (Nat.toDigits 10 n ++ rest)) = n := by
      rw [hnum, numeralValue_toDigits]
    rw [strtoul_of_isDigit hhead (if_neg hne) (by rw [hnum]; exact Nat.toDigits_ne_nil)
      (by rw [hvalue]; exact hn), hvalue, hnum, List.drop_left]

end M57Card.Numerals
