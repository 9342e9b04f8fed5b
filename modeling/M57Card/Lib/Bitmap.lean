import Mathlib.Data.List.Basic
import Mathlib.Algebra.Order.Group.Nat
import Mathlib.Order.Nat
import Mathlib.Data.Nat.Find

/-!
# Bitmaps of one machine word

Bit operations in the manner of the Linux kernel on a bitmap that fits into one `unsigned long` of
64 bits. A bitmap is declared for a number `bits` of bits; searches and the weight look at the bits
below `bits` only, while `setBit` and `clearBit` reach every bit of the word.

## Main definitions

* `setBit`, `clearBit`, `bitmapWeight`.
* `findNextBit`, `findNextZeroBit`, `findFirstZeroBit`.
* `ofPred` : the bitmap with given bits.
* `forEachSetBit` : the bits that a loop over the set bits visits, in its order.

## Main results

* `getLsbD_setBit`, `getLsbD_clearBit` : one operation changes one bit.
* `findNextBit_spec`, `findFirstZeroBit_spec` : what the searches find.
* `bitmapWeight_eq_zero_iff` : the weight is zero when no bit below `bits` is set.
* `forEachSetBit_eq` : the loop visits the set bits in ascending order, each once.
-/

namespace M57Card.Bitmap

/-- An `unsigned long`. -/
abbrev Word : Type := BitVec 64

/-- `set_bit`, for a bit of the first word. -/
def setBit (bit : ℕ) (w : Word) : Word := w ||| 1#64 <<< bit

/-- `clear_bit`, for a bit of the first word. -/
def clearBit (bit : ℕ) (w : Word) : Word := w &&& ~~~(1#64 <<< bit)

/-- `bitops_ffs`: the position of the lowest set bit plus one, `0` when there is none. -/
def bitopsFfs (w : Word) : ℕ :=
  match (List.range 64).find? fun i => w.getLsbD i with
  | some i => i + 1
  | none => 0

/-- `BITMAP_FIRST_WORD_MASK`. -/
def bitmapFirstWordMask (start : ℕ) : Word := BitVec.allOnes 64 <<< (start % 64)

/-- `BITMAP_LAST_WORD_MASK`. -/
def bitmapLastWordMask (bits : ℕ) : Word := BitVec.allOnes 64 >>> ((64 - bits % 64) % 64)

/-- The end of a search: the position of the lowest set bit of `t`, `bits` when it lies behind the
bitmap or when there is none. -/
def searchResult (bits : ℕ) (t : Word) : ℕ :=
  if t = 0#64 then bits else if bits ≤ bitopsFfs t - 1 then bits else bitopsFfs t - 1

/-- `find_next_bit`, in a bitmap of one word. -/
def findNextBit (w : Word) (bits start : ℕ) : ℕ :=
  if bits ≤ start then bits else searchResult bits (w &&& bitmapFirstWordMask start)

/-- `find_next_zero_bit`, in a bitmap of one word. -/
def findNextZeroBit (w : Word) (bits start : ℕ) : ℕ :=
  if bits ≤ start then bits
  else searchResult bits ((w ||| ~~~bitmapFirstWordMask start) ^^^ BitVec.allOnes 64)

/-- `find_first_zero_bit`. -/
def findFirstZeroBit (w : Word) (bits : ℕ) : ℕ := findNextZeroBit w bits 0

/-- `hweight_long`: the number of set bits. -/
def hweightLong (w : Word) : ℕ := (List.range 64).countP fun i => w.getLsbD i

/-- `bitmap_weight`, of a bitmap of one word. -/
def bitmapWeight (w : Word) (bits : ℕ) : ℕ := hweightLong (w &&& bitmapLastWordMask bits)

/-- The loop of `for_each_set_bit` from a position on: the bits it visits. -/
def forEachSetBitFrom (w : Word) (bits : ℕ) : ℕ → ℕ → List ℕ
  | 0, _ => []
  | n + 1, bit =>
      if bit < bits then bit :: forEachSetBitFrom w bits n (findNextBit w bits (bit + 1)) else []

/-- `for_each_set_bit`: the loop advances by at least one bit a turn, so `bits` turns are enough. -/
def forEachSetBit (w : Word) (bits : ℕ) : List ℕ :=
  forEachSetBitFrom w bits bits (findNextBit w bits 0)

/-- The bitmap whose bits below `bits` are those that `p` names. -/
def ofPred (bits : ℕ) (p : ℕ → Bool) : Word :=
  (List.range bits).foldl (fun w i => if p i then setBit i w else w) 0#64

/-! ### Single bits -/

theorem getLsbD_setBit {bit : ℕ} (hbit : bit < 64) (w : Word) (i : ℕ) :
    (setBit bit w).getLsbD i = (w.getLsbD i || decide (i = bit)) := by
  rw [setBit, BitVec.getLsbD_or, BitVec.getLsbD_shiftLeft, BitVec.getLsbD_one]
  by_cases h : i = bit
  · subst h
    simp [hbit]
  · simp only [h, decide_false, Bool.or_false]
    grind

theorem getLsbD_clearBit {bit : ℕ} (hbit : bit < 64) (w : Word) (i : ℕ) :
    (clearBit bit w).getLsbD i = (w.getLsbD i && decide (i ≠ bit)) := by
  rw [clearBit, BitVec.getLsbD_and, BitVec.getLsbD_not, BitVec.getLsbD_shiftLeft,
    BitVec.getLsbD_one]
  by_cases hi : i < 64
  · by_cases h : i = bit
    · subst h
      simp [hbit]
    · grind
  · have hw : w.getLsbD i = false := BitVec.getLsbD_of_ge _ _ (by omega)
    simp [hw]

theorem getLsbD_ofPred {bits : ℕ} (hbits : bits ≤ 64) (p : ℕ → Bool) (i : ℕ) :
    (ofPred bits p).getLsbD i = (decide (i < bits) && p i) := by
  induction bits with
  | zero => simp [ofPred]
  | succ bits ih =>
    have hsucc : ofPred (bits + 1) p =
        if p bits then setBit bits (ofPred bits p) else ofPred bits p := by
      rw [ofPred, List.range_succ, List.foldl_append]
      rfl
    rw [hsucc]
    split_ifs with hp
    · rw [getLsbD_setBit hbits, ih (by omega)]
      grind
    · rw [ih (by omega)]
      grind

/-! ### Searches -/

theorem bitopsFfs_eq_add_one_iff (t : Word) (i : ℕ) :
    bitopsFfs t = i + 1 ↔ t.getLsbD i = true ∧ ∀ j < i, t.getLsbD j = false := by
  have hfind : bitopsFfs t = i + 1 ↔
      ((List.range 64).find? fun i => t.getLsbD i) = some i := by
    unfold bitopsFfs
    split
    next j hj => rw [hj, Nat.add_right_cancel_iff, Option.some_inj]
    next hj => rw [hj]; simp
  rw [hfind, List.find?_range_eq_some]
  constructor
  · rintro ⟨hi, -, hlow⟩
    exact ⟨hi, fun j hj => by simpa using hlow j hj⟩
  · rintro ⟨hi, hlow⟩
    exact ⟨hi, List.mem_range.mpr (BitVec.lt_of_getLsbD hi), fun j hj => by simp [hlow j hj]⟩

theorem exists_bitopsFfs {t : Word} (ht : t ≠ 0#64) : ∃ i, bitopsFfs t = i + 1 := by
  have hbit : ∃ i, t.getLsbD i = true := by
    by_contra hnone
    exact ht (BitVec.eq_of_getLsbD_eq fun i _ => by simpa using fun h => hnone ⟨i, h⟩)
  exact ⟨Nat.find hbit, (bitopsFfs_eq_add_one_iff t _).mpr
    ⟨Nat.find_spec hbit, fun j hj => by simpa using Nat.find_min hbit hj⟩⟩

/-- A search ends at the first set bit of the word it looks at, or at the end of the bitmap. -/
theorem searchResult_spec (bits : ℕ) (t : Word) :
    (∀ i < searchResult bits t, t.getLsbD i = false) ∧
      (searchResult bits t = bits ∨
        searchResult bits t < bits ∧ t.getLsbD (searchResult bits t) = true) := by
  unfold searchResult
  split_ifs with hzero hlast
  · subst hzero
    exact ⟨fun i _ => by simp, Or.inl rfl⟩
  · obtain ⟨i, hi⟩ := exists_bitopsFfs hzero
    obtain ⟨-, hlow⟩ := (bitopsFfs_eq_add_one_iff t i).mp hi
    rw [hi, Nat.add_sub_cancel] at hlast
    exact ⟨fun j hj => hlow j (lt_of_lt_of_le hj hlast), Or.inl rfl⟩
  · obtain ⟨i, hi⟩ := exists_bitopsFfs hzero
    obtain ⟨hbit, hlow⟩ := (bitopsFfs_eq_add_one_iff t i).mp hi
    rw [hi, Nat.add_sub_cancel] at hlast ⊢
    exact ⟨hlow, Or.inr ⟨not_le.mp hlast, hbit⟩⟩

theorem getLsbD_bitmapFirstWordMask {start : ℕ} (hstart : start < 64) (i : ℕ) :
    (bitmapFirstWordMask start).getLsbD i = (decide (i < 64) && decide (start ≤ i)) := by
  rw [bitmapFirstWordMask, BitVec.getLsbD_shiftLeft, Nat.mod_eq_of_lt hstart,
    BitVec.getLsbD_allOnes]
  by_cases hi : i < 64
  · have hsub : i - start < 64 := by omega
    by_cases hle : start ≤ i
    · simp [hi, hsub, hle]
    · simp [hi, hle, not_le.mp hle]
  · simp [hi]

/-- What `find_next_bit` finds from `start` on. -/
theorem findNextBit_spec (w : Word) {bits start : ℕ} (hbits : bits ≤ 64) (hstart : start ≤ bits) :
    start ≤ findNextBit w bits start ∧
      (∀ i, start ≤ i → i < findNextBit w bits start → w.getLsbD i = false) ∧
      (findNextBit w bits start = bits ∨
        findNextBit w bits start < bits ∧ w.getLsbD (findNextBit w bits start) = true) := by
  unfold findNextBit
  split_ifs with hend
  · exact ⟨hstart, fun i hi hlt => absurd hlt (by omega), Or.inl rfl⟩
  · have hlt : start < 64 := by omega
    obtain ⟨hlow, hres⟩ := searchResult_spec bits (w &&& bitmapFirstWordMask start)
    have hget (i : ℕ) : (w &&& bitmapFirstWordMask start).getLsbD i =
        (w.getLsbD i && (decide (i < 64) && decide (start ≤ i))) := by
      rw [BitVec.getLsbD_and, getLsbD_bitmapFirstWordMask hlt]
    set r := searchResult bits (w &&& bitmapFirstWordMask start)
    refine ⟨?_, fun i hi hir => ?_, ?_⟩
    · obtain hr | ⟨-, hr⟩ := hres
      · omega
      · rw [hget] at hr
        simp at hr
        exact hr.2.2
    · have hi64 : i < 64 := by
        obtain hr | ⟨hr, -⟩ := hres <;> omega
      have h := hlow i hir
      rw [hget] at h
      simpa [hi, hi64] using h
    · refine hres.imp id fun h => ⟨h.1, ?_⟩
      have hr := h.2
      rw [hget] at hr
      simp at hr
      exact hr.1

/-- The word that `find_first_zero_bit` searches is the complement of the bitmap. -/
theorem zeroWord_eq (w : Word) :
    (w ||| ~~~bitmapFirstWordMask 0) ^^^ BitVec.allOnes 64 = ~~~w := by
  have hmask : ~~~bitmapFirstWordMask 0 = 0#64 := by decide
  rw [hmask, BitVec.or_zero, BitVec.xor_allOnes]

/-- What `find_first_zero_bit` finds. -/
theorem findFirstZeroBit_spec (w : Word) {bits : ℕ} (hbits : bits ≤ 64) :
    (∀ i < findFirstZeroBit w bits, w.getLsbD i = true) ∧
      (findFirstZeroBit w bits = bits ∨
        findFirstZeroBit w bits < bits ∧ w.getLsbD (findFirstZeroBit w bits) = false) := by
  unfold findFirstZeroBit findNextZeroBit
  split_ifs with hend
  · exact ⟨fun i hi => absurd hi (by omega), Or.inl rfl⟩
  · rw [zeroWord_eq]
    obtain ⟨hlow, hres⟩ := searchResult_spec bits (~~~w)
    set r := searchResult bits (~~~w)
    have hr : r ≤ bits := by
      obtain hr | ⟨hr, -⟩ := hres <;> omega
    refine ⟨fun i hi => ?_, hres.imp id fun h => ⟨h.1, ?_⟩⟩
    · have h := hlow i hi
      have hi64 : i < 64 := by omega
      simpa [hi64] using h
    · have h1 := h.2
      rw [BitVec.getLsbD_not] at h1
      simp at h1
      exact h1.2

/-! ### The weight -/

theorem getLsbD_bitmapLastWordMask {bits : ℕ} (hpos : 0 < bits) (hbits : bits ≤ 64) (i : ℕ) :
    (bitmapLastWordMask bits).getLsbD i = decide (i < bits) := by
  rw [bitmapLastWordMask, BitVec.getLsbD_ushiftRight, BitVec.getLsbD_allOnes]
  congr 1
  simp only [eq_iff_iff]
  omega

/-- The weight is zero when no bit of the bitmap is set. -/
theorem bitmapWeight_eq_zero_iff (w : Word) {bits : ℕ} (hpos : 0 < bits) (hbits : bits ≤ 64) :
    bitmapWeight w bits = 0 ↔ ∀ i < bits, w.getLsbD i = false := by
  unfold bitmapWeight hweightLong
  rw [List.countP_eq_zero]
  constructor
  · intro h i hi
    have := h i (List.mem_range.mpr (lt_of_lt_of_le hi hbits))
    simpa [getLsbD_bitmapLastWordMask hpos hbits, hi] using this
  · intro h i _
    rw [BitVec.getLsbD_and, getLsbD_bitmapLastWordMask hpos hbits]
    by_cases hi : i < bits
    · simp [h i hi]
    · simp [hi]

/-- A bitmap that is not full has a zero bit. -/
theorem findFirstZeroBit_lt {w : Word} {bits : ℕ} (hpos : 0 < bits) (hbits : bits ≤ 64)
    (hfull : bitmapWeight w bits < bits) : findFirstZeroBit w bits < bits := by
  obtain ⟨hlow, hend | ⟨hlt, -⟩⟩ := findFirstZeroBit_spec w hbits
  · rw [hend] at hlow
    -- with all bits set, the positions below `bits` alone are as many as there may be
    have hcount : (List.range bits).countP
        (fun i => (w &&& bitmapLastWordMask bits).getLsbD i) = bits := by
      rw [List.countP_eq_length.mpr fun i hi => ?_, List.length_range]
      have hi' := List.mem_range.mp hi
      rw [BitVec.getLsbD_and, getLsbD_bitmapLastWordMask hpos hbits, hlow i hi']
      simpa using hi'
    have hsplit : List.range 64 = List.range bits ++ (List.range (64 - bits)).map (bits + ·) := by
      rw [← List.range_add, Nat.add_sub_cancel' hbits]
    rw [bitmapWeight, hweightLong, hsplit, List.countP_append, hcount] at hfull
    omega
  · exact hlt

/-! ### The loop over the set bits -/

theorem forEachSetBitFrom_eq (w : Word) {bits : ℕ} (hbits : bits ≤ 64) (n start : ℕ)
    (hstart : start ≤ bits) (hn : bits ≤ start + n) :
    forEachSetBitFrom w bits n (findNextBit w bits start) =
      (List.range' start (bits - start)).filter fun i => w.getLsbD i := by
  induction n generalizing start with
  | zero =>
    have hend : bits - start = 0 := by omega
    simp [forEachSetBitFrom, hend]
  | succ n ih =>
    obtain ⟨hle, hskip, hres⟩ := findNextBit_spec w hbits hstart
    set r := findNextBit w bits start
    -- the bits before `r` are clear and are filtered out
    have hrb : r ≤ bits := by
      obtain hr | ⟨hr, -⟩ := hres <;> omega
    have hsplit : List.range' start (bits - start) =
        List.range' start (r - start) ++ List.range' r (bits - r) := by
      have hlen : bits - start = (r - start) + (bits - r) := by omega
      have hr : start + (r - start) = r := by omega
      rw [hlen, ← List.range'_append_1, hr]
    have hclear : (List.range' start (r - start)).filter (fun i => w.getLsbD i) = [] := by
      rw [List.filter_eq_nil_iff]
      intro i hi
      rw [List.mem_range'_1] at hi
      simp [hskip i hi.1 (by omega)]
    rw [hsplit, List.filter_append, hclear, List.nil_append, forEachSetBitFrom]
    split_ifs with hlt
    · obtain hr | ⟨-, hr⟩ := hres
      · omega
      · have hcons : bits - r = (bits - (r + 1)) + 1 := by omega
        rw [hcons, List.range'_succ, List.filter_cons_of_pos hr, ih (r + 1) (by omega) (by omega)]
    · have hend : bits - r = 0 := by omega
      simp [hend]

/-- The loop visits the set bits of the bitmap in ascending order, each once. -/
theorem forEachSetBit_eq (w : Word) {bits : ℕ} (hbits : bits ≤ 64) :
    forEachSetBit w bits = (List.range bits).filter fun i => w.getLsbD i := by
  rw [forEachSetBit, forEachSetBitFrom_eq w hbits bits 0 (Nat.zero_le _) (by omega),
    List.range_eq_range', Nat.sub_zero]

end M57Card.Bitmap
