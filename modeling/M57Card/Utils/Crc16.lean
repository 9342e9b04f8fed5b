import M57Card.Lib.BitPoly
import M57Card.Lib.Memory

/-!
# The check sum of a message

`crc16_caculate` (`utils.c`) shifts the bytes of a message through a register of 16 bits, the
highest bit of each byte first, and starts with all bits set. What it returns is the remainder of
the message polynomial, for the polynomial `X ^ 16 + X ^ 15 + X ^ 2 + 1`, whose lower part is the
constant `CRC_16_POLYNOMIALS`.

The message is read from a memory, and its length is a `uint16_t`.

## Main definitions

* `Crc16.crc16Caculate` : the model, with its loops `crcBits` and `crcBytes`.
* `Crc16.bitAt`, `Crc16.messagePoly` : the bits of a message in their order, and its polynomial.

## Main results

* `Crc16.crc16_polynomial` : the check sum is a remainder, a message with its check sum behind it
  has the check sum zero, and a burst of 16 bits changes the check sum.
-/

namespace M57Card.Crc16

open Polynomial

/-! ### The code -/

/-- The loop over the bits of a byte. -/
def crcBits : ℕ → UInt16 → UInt16
  | 0, wCRC => wCRC
  | i + 1, wCRC =>
    crcBits i (if wCRC &&& 0x8000 ≠ 0 then (wCRC <<< 1) ^^^ 0x8005 else wCRC <<< 1)

/-- The loop over the bytes from `ptr` on. -/
def crcBytes (m : Mem) : ℕ → ℕ → UInt16 → UInt16
  | 0, _, wCRC => wCRC
  | n + 1, ptr, wCRC => crcBytes m n (ptr + 1) (crcBits 8 (wCRC ^^^ ((m ptr).toUInt16 <<< 8)))

/-- `crc16_caculate` for the `wDataLen` bytes at `pchMsg`. -/
def crc16Caculate (m : Mem) (pchMsg : ℕ) (wDataLen : UInt16) : UInt16 :=
  crcBytes m wDataLen.toNat pchMsg 0xFFFF

/-! ### Messages as polynomials -/

/-- The bit with the number `i` of a message, the highest bit of a byte first. -/
def bitAt (msg : List UInt8) (i : ℕ) : Bool := (msg.getD (i / 8) 0).toNat.testBit (7 - i % 8)

/-- The polynomial of a message, with its first bit as the highest coefficient. -/
noncomputable def messagePoly (msg : List UInt8) : (ZMod 2)[X] :=
  ∑ i ∈ Finset.range (8 * msg.length), if bitAt msg i then X ^ (8 * msg.length - 1 - i) else 0

/-- The polynomial of the check sum. -/
noncomputable def crcPoly : (ZMod 2)[X] := X ^ 16 + X ^ 15 + X ^ 2 + 1

/-- The two bytes of a check sum, the high one first. -/
def checkBytes (crc : UInt16) : List UInt8 := [(crc >>> 8).toUInt8, crc.toUInt8]

/-- The bytes of a message as words. -/
def words (msg : List UInt8) : List (BitVec 8) := msg.map UInt8.toBitVec

theorem coeff_words (msg : List UInt8) (k : ℕ) :
    (BitPoly.wordsPoly (words msg)).coeff k =
      if k < 8 * msg.length then if bitAt msg (8 * msg.length - 1 - k) then 1 else 0 else 0 := by
  have hlen : (words msg).reverse.length = msg.length := by
    rw [words, List.length_reverse, List.length_map]
  rw [BitPoly.coeff_wordsPoly (by omega)]
  by_cases hk : k < 8 * msg.length
  · have hdiv : (8 * msg.length - 1 - k) / 8 = msg.length - 1 - k / 8 := by omega
    have hmod : 7 - (8 * msg.length - 1 - k) % 8 = k % 8 := by omega
    have hword : (words msg).reverse.getD (k / 8) 0#8 =
        (msg.getD (msg.length - 1 - k / 8) 0).toBitVec := by
      rw [List.getD_eq_getElem _ _ (by omega), List.getD_eq_getElem _ _ (by omega)]
      simp only [words, ← List.map_reverse, List.getElem_map, List.getElem_reverse]
    rw [if_pos hk, bitAt, hdiv, hmod, hword]
    rfl
  · rw [if_neg hk, List.getD_eq_default _ _ (by omega), BitVec.getLsbD_zero]
    rfl

theorem coeff_messagePoly (msg : List UInt8) (k : ℕ) :
    (messagePoly msg).coeff k =
      if k < 8 * msg.length then if bitAt msg (8 * msg.length - 1 - k) then 1 else 0 else 0 := by
  have hcoeff (i : ℕ) (hi : i ∈ Finset.range (8 * msg.length)) :
      (if bitAt msg i then X ^ (8 * msg.length - 1 - i) else 0 : (ZMod 2)[X]).coeff k =
        if i = 8 * msg.length - 1 - k then
          if k < 8 * msg.length then if bitAt msg (8 * msg.length - 1 - k) then 1 else 0 else 0
        else 0 := by
    have hrange := Finset.mem_range.mp hi
    rw [apply_ite (fun p : (ZMod 2)[X] => p.coeff k), coeff_X_pow, coeff_zero]
    by_cases hik : i = 8 * msg.length - 1 - k
    · by_cases hk : k < 8 * msg.length
      · rw [if_pos (by omega : k = 8 * msg.length - 1 - i), if_pos hik, if_pos hk, hik]
      · rw [if_neg (by omega : k ≠ 8 * msg.length - 1 - i), if_pos hik, if_neg hk, ite_self]
    · rw [if_neg (by omega : k ≠ 8 * msg.length - 1 - i), if_neg hik, ite_self]
  rw [messagePoly, finsetSum_coeff, Finset.sum_congr rfl hcoeff, Finset.sum_ite_eq']
  by_cases hk : k < 8 * msg.length
  · rw [if_pos (Finset.mem_range.mpr (by omega))]
  · rw [if_neg hk, ite_self]

theorem messagePoly_eq (msg : List UInt8) : messagePoly msg = BitPoly.wordsPoly (words msg) := by
  ext k
  rw [coeff_messagePoly, coeff_words]

theorem poly_polynomials : BitPoly.poly 0x8005#16 = X ^ 15 + X ^ 2 + 1 := by
  have hbits (i : ℕ) (hi : i < 16) :
      BitVec.getLsbD 0x8005#16 i = decide (i = 0 ∨ i = 2 ∨ i = 15) := by
    revert i
    decide
  ext k
  rw [BitPoly.coeff_poly, coeff_add, coeff_add, coeff_X_pow, coeff_X_pow, coeff_one]
  by_cases hk : k < 16
  · rw [hbits k hk]
    by_cases h0 : k = 0
    · simp [h0]
    · by_cases h2 : k = 2
      · simp [h2]
      · by_cases h15 : k = 15
        · simp [h15]
        · simp [h0, h2, h15]
  · rw [BitVec.getLsbD_of_ge _ _ (not_lt.mp hk), if_neg (by omega : k ≠ 15),
      if_neg (by omega : k ≠ 2), if_neg (by omega : k ≠ 0)]
    rfl

theorem modulus_eq : BitPoly.modulus 0x8005#16 = crcPoly := by
  rw [BitPoly.modulus, poly_polynomials, crcPoly]
  ring

theorem poly_start : BitPoly.poly 0xFFFF#16 = ∑ i ∈ Finset.range 16, X ^ i := by
  refine Finset.sum_congr rfl fun i hi => if_pos ?_
  have hbits : ∀ i < 16, BitVec.getLsbD 0xFFFF#16 i = true := by decide
  exact hbits i (Finset.mem_range.mp hi)

/-! ### The register -/

theorem toBitVec_crcBits (n : ℕ) (wCRC : UInt16) :
    (crcBits n wCRC).toBitVec = (BitPoly.shiftStep 0x8005#16)^[n] wCRC.toBitVec := by
  induction n generalizing wCRC with
  | zero => rfl
  | succ n ih =>
    have hbit : wCRC &&& 0x8000 ≠ 0 ↔ wCRC.toBitVec.msb = true := by
      have hmask : (0x8000 : UInt16).toBitVec = BitVec.twoPow 16 15 := rfl
      rw [Ne, ← UInt16.toBitVec_inj, UInt16.toBitVec_and, BitVec.msb_eq_getLsbD_last, hmask,
        BitVec.and_twoPow]
      split_ifs with hmsb
      · exact iff_of_true (by decide) hmsb
      · exact iff_of_false (fun h => h rfl) hmsb
    rw [crcBits, ih, Function.iterate_succ_apply, BitPoly.shiftStep]
    split_ifs with hand hmsb hmsb
    · rfl
    · exact absurd (hbit.mp hand) hmsb
    · exact absurd (hbit.mpr hmsb) hand
    · rfl

theorem toBitVec_crcBytes {m : Mem} {p : ℕ} {msg : List UInt8} (h : m.Holds p msg)
    (wCRC : UInt16) :
    (crcBytes m msg.length p wCRC).toBitVec =
      BitPoly.run 0x8005#16 wCRC.toBitVec (words msg) := by
  induction msg generalizing p wCRC with
  | nil => rfl
  | cons b msg ih =>
    have hb : m p = b := h 0 (Nat.succ_pos _)
    have hrest : m.Holds (p + 1) msg := ((Mem.holds_append [b] msg).mp h).2
    rw [List.length_cons, crcBytes, ih hrest, toBitVec_crcBits, hb]
    rfl

theorem toBitVec_crc16Caculate {m : Mem} {p : ℕ} {msg : List UInt8} (h : m.Holds p msg)
    (hlen : msg.length ≤ 65535) :
    (crc16Caculate m p (UInt16.ofNat msg.length)).toBitVec =
      BitPoly.run 0x8005#16 0xFFFF#16 (words msg) := by
  have hcount : (UInt16.ofNat msg.length).toNat = msg.length :=
    UInt16.toNat_ofNat_of_lt' (Nat.lt_succ_of_le hlen)
  rw [crc16Caculate, hcount, toBitVec_crcBytes h]
  rfl

/-! ### The check sum -/

/-- The two bytes of a check sum have its polynomial. -/
theorem wordsPoly_checkBytes (crc : UInt16) :
    BitPoly.wordsPoly (words (checkBytes crc)) = BitPoly.poly crc.toBitVec := by
  have hwords : BitPoly.wordsPoly (words (checkBytes crc)) =
      X ^ 8 * BitPoly.poly ((crc >>> 8).toUInt8.toBitVec) + BitPoly.poly crc.toUInt8.toBitVec := by
    simp [BitPoly.wordsPoly, words, checkBytes]
  rw [hwords]
  ext k
  rw [coeff_add, coeff_X_pow_mul', BitPoly.coeff_poly, BitPoly.coeff_poly, BitPoly.coeff_poly]
  by_cases hk : 8 ≤ k
  · have hhigh : (crc >>> 8).toUInt8.toBitVec.getLsbD (k - 8) = crc.toBitVec.getLsbD k := by
      have hshift : (crc >>> 8).toUInt8.toBitVec = (crc.toBitVec >>> 8).setWidth 8 := rfl
      rw [hshift, BitVec.getLsbD_setWidth, BitVec.getLsbD_ushiftRight, Nat.add_sub_cancel' hk]
      by_cases hlt : k - 8 < 8
      · rw [decide_eq_true hlt, Bool.true_and]
      · rw [decide_eq_false hlt, Bool.false_and, BitVec.getLsbD_of_ge _ _ (by omega)]
    rw [if_pos hk, hhigh, BitVec.getLsbD_of_ge _ _ hk, if_neg Bool.false_ne_true, add_zero]
  · have hlow : crc.toUInt8.toBitVec.getLsbD k = crc.toBitVec.getLsbD k := by
      rw [UInt16.toBitVec_toUInt8, BitVec.getLsbD_setWidth, decide_eq_true (not_le.mp hk),
        Bool.true_and]
    rw [if_neg hk, hlow, zero_add]

theorem words_append (msg msg' : List UInt8) : words (msg ++ msg') = words msg ++ words msg' :=
  List.map_append

/-- A burst of 16 bits in a message is one in its polynomial. -/
theorem coeff_eq_of_burst {msg msg' : List UInt8} (hlen : msg.length = msg'.length) {start : ℕ}
    (hburst : ∀ i, i < start ∨ start + 16 ≤ i → bitAt msg i = bitAt msg' i) (k : ℕ)
    (hk : k < 8 * msg.length - (start + 16) ∨ 8 * msg.length - (start + 16) + 16 ≤ k) :
    (BitPoly.wordsPoly (words msg)).coeff k = (BitPoly.wordsPoly (words msg')).coeff k := by
  rw [coeff_words, coeff_words, ← hlen]
  by_cases hin : k < 8 * msg.length
  · rw [if_pos hin, if_pos hin, hburst (8 * msg.length - 1 - k) (by omega)]
  · rw [if_neg hin, if_neg hin]

/-- The check sum is the remainder of the message polynomial; a message with its check sum behind it
has the check sum zero; messages that differ in one burst of 16 bits have different check sums. -/
theorem crc16_polynomial :
    (∀ (m : Mem) (p : ℕ) (msg : List UInt8), m.Holds p msg → msg.length ≤ 65535 →
      BitPoly.poly (crc16Caculate m p (UInt16.ofNat msg.length)).toBitVec =
        (X ^ 16 * messagePoly msg + X ^ (8 * msg.length) * ∑ i ∈ Finset.range 16, X ^ i) %ₘ
          crcPoly) ∧
    (∀ (m m' : Mem) (p p' : ℕ) (msg : List UInt8), m.Holds p msg → msg.length ≤ 65533 →
      m'.Holds p' (msg ++ checkBytes (crc16Caculate m p (UInt16.ofNat msg.length))) →
      crc16Caculate m' p' (UInt16.ofNat (msg.length + 2)) = 0) ∧
    (∀ (m m' : Mem) (p p' : ℕ) (msg msg' : List UInt8), m.Holds p msg → m'.Holds p' msg' →
      msg.length ≤ 65535 → msg.length = msg'.length → msg ≠ msg' → ∀ start : ℕ,
      (∀ i, i < start ∨ start + 16 ≤ i → bitAt msg i = bitAt msg' i) →
      crc16Caculate m p (UInt16.ofNat msg.length) ≠
        crc16Caculate m' p' (UInt16.ofNat msg'.length)) := by
  refine ⟨fun m p msg h hlen => ?_, fun m m' p p' msg h hlen h' => ?_,
    fun m m' p p' msg msg' h h' hmax hlen hne start hburst heq => ?_⟩
  · have hrun := BitPoly.poly_run 0x8005#16 (by omega) 0xFFFF#16 (words msg)
    rw [toBitVec_crc16Caculate h hlen, hrun, modulus_eq, messagePoly_eq, poly_start, words,
      List.length_map]
  · have hrem : BitPoly.wordsPoly
        (words (checkBytes (crc16Caculate m p (UInt16.ofNat msg.length)))) =
          BitPoly.poly (BitPoly.run 0x8005#16 0xFFFF#16 (words msg)) := by
      rw [wordsPoly_checkBytes, toBitVec_crc16Caculate h (by omega)]
    have hzero := BitPoly.run_append_self 0x8005#16 (by omega) 0xFFFF#16 (words msg) _ rfl hrem
    rw [← words_append, ← toBitVec_crc16Caculate h' (by
      rw [List.length_append]; exact Nat.add_le_add_right hlen 2), List.length_append] at hzero
    exact UInt16.toBitVec_inj.mp hzero
  · have hwords : BitPoly.wordsPoly (words msg) ≠ BitPoly.wordsPoly (words msg') := by
      intro hpoly
      have hmap := BitPoly.wordsPoly_injective (by rw [words, words, List.length_map,
        List.length_map, hlen]) hpoly
      exact hne (List.map_injective_iff.mpr (fun _ _ => UInt8.toBitVec_inj.mp) hmap)
    refine BitPoly.run_ne_of_burst 0x8005#16 (by omega) (by omega) rfl 0xFFFF#16
      (by rw [words, words, List.length_map, List.length_map, hlen]) hwords
      (coeff_eq_of_burst hlen hburst) ?_
    rw [← toBitVec_crc16Caculate h hmax, ← toBitVec_crc16Caculate h' (hlen ▸ hmax), heq]

/-- The digits from one to nine as a message, and the same with two other bytes in it. -/
theorem crc16_polynomial_digits :
    crc16Caculate (Mem.ofList [49, 50, 51, 52, 53, 54, 55, 56, 57]) 0 9 = 0xAEE7 ∧
      crc16Caculate (Mem.ofList [49, 50, 51, 52, 53, 54, 55, 56, 57, 0xAE, 0xE7]) 0 11 = 0 ∧
      crc16Caculate (Mem.ofList [49, 50, 51, 52, 53, 54, 55, 56, 57]) 0 9 ≠
        crc16Caculate (Mem.ofList [49, 50, 51, 0, 255, 54, 55, 56, 57]) 0 9 := by
  have hcrc : crc16Caculate (Mem.ofList [49, 50, 51, 52, 53, 54, 55, 56, 57]) 0 9 = 0xAEE7 := by
    decide +kernel
  obtain ⟨-, hself, hburst⟩ := crc16_polynomial
  refine ⟨hcrc, ?_, ?_⟩
  · refine hself _ _ 0 0 [49, 50, 51, 52, 53, 54, 55, 56, 57] (Mem.holds_ofList _) (by decide) ?_
    have hcount : UInt16.ofNat [49, 50, 51, 52, 53, 54, 55, 56, (57 : UInt8)].length = 9 := rfl
    rw [hcount, hcrc]
    exact Mem.holds_ofList _
  · refine hburst _ _ 0 0 [49, 50, 51, 52, 53, 54, 55, 56, 57] [49, 50, 51, 0, 255, 54, 55, 56, 57]
      (Mem.holds_ofList _) (Mem.holds_ofList _) (by decide) rfl (by decide) 24 fun i hi => ?_
    have hbyte : ∀ q, q < 3 ∨ 5 ≤ q → [49, 50, 51, 52, 53, 54, 55, 56, (57 : UInt8)].getD q 0 =
        [49, 50, 51, 0, 255, 54, 55, 56, (57 : UInt8)].getD q 0
      | 0, _ | 1, _ | 2, _ => rfl
      | 3, h | 4, h => by omega
      | q + 5, _ => rfl
    rw [bitAt, bitAt, hbyte (i / 8) (by omega)]

end M57Card.Crc16
