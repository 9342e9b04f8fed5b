import Mathlib.Algebra.Polynomial.Div
import Mathlib.Algebra.Polynomial.FieldDivision
import Mathlib.Algebra.Field.ZMod
import Mathlib.Algebra.CharP.Two
import Mathlib.Tactic.Ring

/-!
# Words as polynomials, and shift registers

The bits of a word are the coefficients of a polynomial over the field with two elements: exclusive
or is addition, and a shift is multiplication by `X`. A shift register that is fed back with a word
`g` where its highest bit falls out multiplies by `X` modulo `X ^ w + g`. When words are put in at
its upper end, it computes the remainder of their polynomial, with that of its first content.

## Main definitions

* `poly` : the polynomial of a word; `wordsPoly` : that of a list of words, the first one highest.
* `shiftStep`, `run` : the register.

## Main results

* `poly_run` : the register is a remainder.
* `coeff_wordsPoly`, `wordsPoly_injective` : the coefficients of a list of words.
* `run_append_self` : words that are the remainder itself bring the register to zero.
* `run_ne_of_burst` : words that differ in a window as wide as the register.
-/

namespace M57Card.BitPoly

open Polynomial

/-! ### Words -/

section Words

variable {w : ℕ}

/-- The polynomial of a word. -/
noncomputable def poly (b : BitVec w) : (ZMod 2)[X] :=
  ∑ i ∈ Finset.range w, if b.getLsbD i then X ^ i else 0

theorem coeff_poly (b : BitVec w) (k : ℕ) :
    (poly b).coeff k = if b.getLsbD k then 1 else 0 := by
  have hcoeff (i : ℕ) : (if b.getLsbD i then X ^ i else 0 : (ZMod 2)[X]).coeff k =
      if k = i then if b.getLsbD k then 1 else 0 else 0 := by
    rw [apply_ite (fun p : (ZMod 2)[X] => p.coeff k), coeff_X_pow, coeff_zero]
    by_cases hki : k = i
    · rw [hki, if_pos rfl, if_pos rfl]
    · rw [if_neg hki, if_neg hki, ite_self]
  rw [poly, finsetSum_coeff, Finset.sum_congr rfl fun i _ => hcoeff i, Finset.sum_ite_eq]
  by_cases hk : k < w
  · rw [if_pos (Finset.mem_range.mpr hk)]
  · rw [if_neg (fun hmem => hk (Finset.mem_range.mp hmem)), BitVec.getLsbD_of_ge b k (not_lt.mp hk)]
    rfl

theorem poly_injective : Function.Injective (poly : BitVec w → (ZMod 2)[X]) := by
  intro a b h
  refine BitVec.eq_of_getLsbD_eq fun i _ => ?_
  have hcoeff := congrArg (fun p => p.coeff i) h
  simp only [coeff_poly] at hcoeff
  cases ha : a.getLsbD i <;> cases hb : b.getLsbD i <;> simp_all

theorem poly_zero : poly (0#w) = 0 := by
  ext k
  rw [coeff_poly, BitVec.getLsbD_zero, coeff_zero]
  rfl

theorem degree_poly_lt (b : BitVec w) : (poly b).degree < w := by
  rw [degree_lt_iff_coeff_zero]
  intro k hk
  rw [coeff_poly, BitVec.getLsbD_of_ge b k hk]
  rfl

theorem poly_xor (a b : BitVec w) : poly (a ^^^ b) = poly a + poly b := by
  ext k
  rw [coeff_add, coeff_poly, coeff_poly, coeff_poly, BitVec.getLsbD_xor]
  cases a.getLsbD k <;> cases b.getLsbD k <;> decide

/-- A shift multiplies by `X`, and loses the highest bit. -/
theorem poly_shiftLeft_one (b : BitVec w) :
    poly (b <<< 1) = X * poly b - if b.msb then X ^ w else 0 := by
  have hmsb : (if b.msb then X ^ w else 0 : (ZMod 2)[X]) =
      if b.getLsbD (w - 1) then X ^ w else 0 := by
    rw [BitVec.msb_eq_getLsbD_last]
  rw [hmsb]
  ext k
  rw [coeff_sub, coeff_poly, apply_ite (fun p : (ZMod 2)[X] => p.coeff k), coeff_X_pow, coeff_zero,
    BitVec.getLsbD_shiftLeft]
  rcases k with - | k
  · rw [coeff_X_mul_zero]
    rcases w.eq_zero_or_pos with rfl | hw
    · rw [BitVec.getLsbD_of_ge b _ (Nat.zero_le _)]
      simp
    · simp [hw.ne]
  · rw [coeff_X_mul, coeff_poly]
    rcases lt_trichotomy (k + 1) w with hlt | heq | hgt
    · simp [hlt, hlt.ne]
    · obtain rfl := heq
      simp
    · rw [BitVec.getLsbD_of_ge b k (by omega)]
      simp [hgt.ne', hgt.not_gt]

/-- The upper bits of a register that a word is put into. -/
theorem poly_setWidth_shiftLeft {k : ℕ} (hk : k ≤ w) (b : BitVec k) :
    poly (b.setWidth w <<< (w - k)) = X ^ (w - k) * poly b := by
  ext i
  rw [coeff_X_pow_mul', coeff_poly, BitVec.getLsbD_shiftLeft, BitVec.getLsbD_setWidth]
  by_cases hi : w - k ≤ i
  · rw [if_pos hi, coeff_poly]
    by_cases hw : i < w
    · simp [hw, hi.not_gt, (by omega : i - (w - k) < w)]
    · rw [BitVec.getLsbD_of_ge b _ (by omega)]
      simp
  · simp [hi, not_le.mp hi]

end Words

/-! ### Shift registers -/

section Registers

variable {w k : ℕ} (g : BitVec w)

/-- The polynomial of a register: what is fed back, and the bit that falls out. -/
noncomputable def modulus : (ZMod 2)[X] := X ^ w + poly g

/-- A shift, with `g` where a bit falls out. -/
def shiftStep (r : BitVec w) : BitVec w := if r.msb then (r <<< 1) ^^^ g else r <<< 1

/-- Words that are put in at the upper end. -/
def run (r : BitVec w) (words : List (BitVec k)) : BitVec w :=
  words.foldl (fun (r : BitVec w) (b : BitVec k) =>
    (shiftStep g)^[k] (r ^^^ (b.setWidth w <<< (w - k)))) r

/-- The polynomial of a list of words. -/
noncomputable def wordsPoly (words : List (BitVec k)) : (ZMod 2)[X] :=
  words.foldl (fun p b => X ^ k * p + poly b) 0

theorem monic_modulus : (modulus g).Monic := monic_X_pow_add (degree_poly_lt g)

theorem degree_modulus : (modulus g).degree = w := by
  rw [modulus, degree_add_eq_left_of_degree_lt, degree_X_pow]
  rw [degree_X_pow]
  exact degree_poly_lt g

/-- A step multiplies by `X`. -/
theorem dvd_shiftStep (r : BitVec w) : modulus g ∣ X * poly r - poly (shiftStep g r) := by
  unfold shiftStep modulus
  split_ifs with hmsb
  · rw [poly_xor, poly_shiftLeft_one, if_pos hmsb]
    refine dvd_of_eq ?_
    rw [← CharTwo.sub_eq_add]
    ring
  · rw [poly_shiftLeft_one, if_neg hmsb, sub_zero, sub_self]
    exact dvd_zero _

/-- Steps multiply by a power of `X`. -/
theorem dvd_iterate (n : ℕ) (r : BitVec w) :
    modulus g ∣ X ^ n * poly r - poly ((shiftStep g)^[n] r) := by
  induction n generalizing r with
  | zero => simp
  | succ n ih =>
    rw [Function.iterate_succ_apply]
    have hstep := (dvd_shiftStep g r).mul_left (X ^ n)
    have hsum := dvd_add hstep (ih (shiftStep g r))
    have heq : X ^ n * (X * poly r - poly (shiftStep g r)) + (X ^ n * poly (shiftStep g r) -
        poly ((shiftStep g)^[n] (shiftStep g r))) =
        X ^ (n + 1) * poly r - poly ((shiftStep g)^[n] (shiftStep g r)) := by ring
    rwa [heq] at hsum

theorem run_concat (r : BitVec w) (words : List (BitVec k)) (b : BitVec k) :
    run g r (words ++ [b]) =
      (shiftStep g)^[k] (run g r words ^^^ (b.setWidth w <<< (w - k))) := by
  rw [run, List.foldl_append]
  rfl

theorem wordsPoly_concat (words : List (BitVec k)) (b : BitVec k) :
    wordsPoly (words ++ [b]) = X ^ k * wordsPoly words + poly b := by
  rw [wordsPoly, List.foldl_append]
  rfl

/-- The register is congruent to what has been put in. -/
theorem dvd_run (hk : k ≤ w) (r : BitVec w) (words : List (BitVec k)) :
    modulus g ∣ X ^ w * wordsPoly words + X ^ (k * words.length) * poly r -
      poly (run g r words) := by
  induction words using List.reverseRecOn with
  | nil => simp [wordsPoly, run]
  | append_singleton words b ih =>
    have hstep := dvd_iterate g k (run g r words ^^^ (b.setWidth w <<< (w - k)))
    have hsum := dvd_add (ih.mul_left (X ^ k)) hstep
    have hpow : (X : (ZMod 2)[X]) ^ w = X ^ k * X ^ (w - k) := by
      rw [← pow_add, Nat.add_sub_cancel' hk]
    have heq : X ^ k * (X ^ w * wordsPoly words + X ^ (k * words.length) * poly r -
        poly (run g r words)) + (X ^ k * poly (run g r words ^^^ (b.setWidth w <<< (w - k))) -
          poly (run g r (words ++ [b]))) =
        X ^ w * wordsPoly (words ++ [b]) + X ^ (k * (words ++ [b]).length) * poly r -
          poly (run g r (words ++ [b])) := by
      rw [poly_xor, poly_setWidth_shiftLeft hk, wordsPoly_concat, List.length_append,
        List.length_singleton, hpow]
      ring
    rwa [← run_concat, heq] at hsum

/-- The register is the remainder of what has been put in. -/
theorem poly_run (hk : k ≤ w) (r : BitVec w) (words : List (BitVec k)) :
    poly (run g r words) =
      (X ^ w * wordsPoly words + X ^ (k * words.length) * poly r) %ₘ modulus g := by
  have hdegree : (poly (run g r words)).degree < (modulus g).degree := by
    rw [degree_modulus]
    exact degree_poly_lt _
  rw [← (modByMonic_eq_self_iff (monic_modulus g)).mpr hdegree, eq_comm, ← sub_eq_zero,
    ← sub_modByMonic, modByMonic_eq_zero_iff_dvd (monic_modulus g)]
  exact dvd_run g hk r words

theorem wordsPoly_append (words words' : List (BitVec k)) :
    wordsPoly (words ++ words') = X ^ (k * words'.length) * wordsPoly words + wordsPoly words' := by
  induction words' using List.reverseRecOn with
  | nil => simp [wordsPoly]
  | append_singleton words' b ih =>
    rw [← List.append_assoc, wordsPoly_concat, ih, wordsPoly_concat, List.length_append,
      List.length_singleton]
    ring

/-- The bits of the words, from the lowest bit of the last word on. -/
theorem coeff_wordsPoly (hk : 0 < k) (words : List (BitVec k)) (i : ℕ) :
    (wordsPoly words).coeff i =
      if (words.reverse.getD (i / k) 0#k).getLsbD (i % k) then 1 else 0 := by
  induction words using List.reverseRecOn generalizing i with
  | nil => simp [wordsPoly]
  | append_singleton words b ih =>
    rw [wordsPoly_concat, coeff_add, coeff_X_pow_mul', coeff_poly, List.reverse_append,
      List.reverse_singleton, List.singleton_append]
    by_cases hi : k ≤ i
    · rw [if_pos hi, ih, BitVec.getLsbD_of_ge b i hi, Nat.div_eq_sub_div hk hi,
        Nat.mod_eq_sub_mod hi, List.getD_cons_succ]
      simp
    · rw [if_neg hi, Nat.div_eq_of_lt (not_le.mp hi), Nat.mod_eq_of_lt (not_le.mp hi), zero_add,
        List.getD_cons_zero]

/-- Different lists of words of one length have different polynomials. -/
theorem wordsPoly_injective {words words' : List (BitVec k)} (hlen : words.length = words'.length)
    (h : wordsPoly words = wordsPoly words') : words = words' := by
  induction words using List.reverseRecOn generalizing words' with
  | nil => exact (List.length_eq_zero_iff.mp hlen.symm).symm
  | append_singleton words b ih =>
    cases words' using List.reverseRecOn with
    | nil => simp at hlen
    | append_singleton words' b' =>
      rw [wordsPoly_concat, wordsPoly_concat] at h
      have hlow : poly b = poly b' := by
        ext i
        by_cases hi : i < k
        · have hcoeff := congrArg (fun p => p.coeff i) h
          simpa only [coeff_add, coeff_X_pow_mul', if_neg (not_le.mpr hi), zero_add] using hcoeff
        · rw [coeff_poly, coeff_poly, BitVec.getLsbD_of_ge b i (not_lt.mp hi),
            BitVec.getLsbD_of_ge b' i (not_lt.mp hi)]
      rw [hlow] at h
      have hwords := mul_left_cancel₀ (pow_ne_zero k X_ne_zero) (add_right_cancel h)
      rw [List.length_append, List.length_append] at hlen
      rw [ih (Nat.add_right_cancel hlen) hwords, poly_injective hlow]

/-- Words that are the remainder itself bring the register to zero. -/
theorem run_append_self (hk : k ≤ w) (r : BitVec w) (words rem : List (BitVec k))
    (hlen : k * rem.length = w) (hrem : wordsPoly rem = poly (run g r words)) :
    run g r (words ++ rem) = 0 := by
  have hdvd := dvd_run g hk r (words ++ rem)
  have heq : X ^ w * wordsPoly (words ++ rem) + X ^ (k * (words ++ rem).length) * poly r =
      X ^ w * (X ^ w * wordsPoly words + X ^ (k * words.length) * poly r -
        poly (run g r words)) := by
    rw [wordsPoly_append, hlen, hrem, List.length_append, Nat.mul_add, hlen, pow_add,
      CharTwo.sub_eq_add]
    ring
  have hzero : modulus g ∣ poly (run g r (words ++ rem)) := by
    have hdiff := dvd_sub ((dvd_run g hk r words).mul_left (X ^ w)) hdvd
    rwa [heq, sub_sub_cancel] at hdiff
  have hdegree : (poly (run g r (words ++ rem))).degree < (modulus g).degree := by
    rw [degree_modulus]
    exact degree_poly_lt _
  exact poly_injective ((eq_zero_of_dvd_of_degree_lt hzero hdegree).trans poly_zero.symm)

/-- The modulus has no factor `X` when the lowest bit is fed back. -/
theorem isCoprime_modulus (hw : 0 < w) (hg : g.getLsbD 0 = true) : IsCoprime (modulus g) X := by
  have hX : Irreducible (X : (ZMod 2)[X]) := irreducible_X
  rw [isCoprime_comm, hX.coprime_iff_not_dvd, X_dvd_iff, modulus, coeff_add, coeff_poly,
    if_pos hg, coeff_X_pow, if_neg hw.ne, zero_add]
  exact one_ne_zero

/-- Words that differ in a window as wide as the register bring it to different contents. -/
theorem run_ne_of_burst (hk : k ≤ w) (hw : 0 < w) (hg : g.getLsbD 0 = true) (r : BitVec w)
    {words words' : List (BitVec k)} (hlen : words.length = words'.length)
    (hne : wordsPoly words ≠ wordsPoly words') {lo : ℕ}
    (hburst : ∀ i, i < lo ∨ lo + w ≤ i → (wordsPoly words).coeff i = (wordsPoly words').coeff i) :
    run g r words ≠ run g r words' := by
  intro hrun
  have hzero {i : ℕ} (hi : i < lo ∨ lo + w ≤ i) :
      (wordsPoly words - wordsPoly words').coeff i = 0 := by
    rw [coeff_sub, hburst i hi, sub_self]
  obtain ⟨e, he⟩ : X ^ lo ∣ wordsPoly words - wordsPoly words' :=
    X_pow_dvd_iff.mpr fun i hi => hzero (Or.inl hi)
  have hdegree : e.degree < (modulus g).degree := by
    rw [degree_modulus, degree_lt_iff_coeff_zero]
    intro i hi
    have hcoeff := hzero (i := i + lo) (Or.inr (by omega))
    rwa [he, coeff_X_pow_mul] at hcoeff
  have hdvd : modulus g ∣ X ^ (w + lo) * e := by
    have hdiff := dvd_sub (dvd_run g hk r words) (dvd_run g hk r words')
    rw [hrun, hlen] at hdiff
    have heq : X ^ w * wordsPoly words + X ^ (k * words'.length) * poly r -
        poly (run g r words') - (X ^ w * wordsPoly words' + X ^ (k * words'.length) * poly r -
          poly (run g r words')) = X ^ w * (wordsPoly words - wordsPoly words') := by ring
    rwa [heq, he, ← mul_assoc, ← pow_add] at hdiff
  have hquot := (isCoprime_modulus g hw hg).pow_right.dvd_of_dvd_mul_left hdvd
  rw [eq_zero_of_dvd_of_degree_lt hquot hdegree, mul_zero] at he
  exact hne (sub_eq_zero.mp he)

end Registers

end M57Card.BitPoly
