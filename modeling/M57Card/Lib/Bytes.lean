import Mathlib.Data.List.GetD
import Mathlib.Tactic.Linarith

/-!
# Little-endian fields of byte strings

A C structure laid over a byte buffer is read field by field at fixed offsets. This file reads
such fields from a `List UInt8`. A field that lies past the end of the list reads as zero, which
is what a zero-filled allocation gives for the part of a block that nothing was copied into.

## Main definitions

* `Bytes.byteAt`, `Bytes.u16`, `Bytes.u32` : the byte, the 16-bit and the 32-bit field at an
  offset.
* `Bytes.i16` : the two's-complement reading of a 16-bit value.
* `Bytes.le16`, `Bytes.le32` : the bytes of a field.
* `Bytes.memcpy` : a copy into a buffer at an offset.
* `Bytes.blocks` : a string cut into blocks of equal length.

## Main results

* `Bytes.u16_drop`, `Bytes.u16_take` : fields of parts of a buffer.
* `Bytes.u16_le16_append` : a field read back from its bytes.
* `Bytes.memcpy_length_eq` : a copy at the end of a buffer appends.
* `Bytes.blocks_of_ne_nil` : the first block and the others.
-/

namespace M57Card.Bytes

/-- The byte at offset `i`, zero past the end. -/
def byteAt (b : List UInt8) (i : ℕ) : ℕ := (b.getD i 0).toNat

/-- The 16-bit little-endian field at offset `i`. -/
def u16 (b : List UInt8) (i : ℕ) : ℕ := byteAt b i + 256 * byteAt b (i + 1)

/-- The 32-bit little-endian field at offset `i`. -/
def u32 (b : List UInt8) (i : ℕ) : ℕ := u16 b i + 65536 * u16 b (i + 2)

/-- A 16-bit value read as a signed integer. -/
def i16 (n : ℕ) : ℤ := if n < 32768 then n else n - 65536

/-- The two bytes of a 16-bit field; the value is reduced modulo `2^16`. -/
def le16 (n : ℕ) : List UInt8 := [UInt8.ofNat n, UInt8.ofNat (n / 256)]

/-- The four bytes of a 32-bit field; the value is reduced modulo `2^32`. -/
def le32 (n : ℕ) : List UInt8 := le16 n ++ le16 (n / 65536)

/-- The buffer `dst` after `src` has been copied to offset `off`. -/
def memcpy (dst : List UInt8) (off : ℕ) (src : List UInt8) : List UInt8 :=
  dst.take off ++ src ++ dst.drop (off + src.length)

theorem byteAt_lt (b : List UInt8) (i : ℕ) : byteAt b i < 256 := (b.getD i 0).toNat_lt

theorem u16_lt (b : List UInt8) (i : ℕ) : u16 b i < 65536 := by
  have h₀ := byteAt_lt b i
  have h₁ := byteAt_lt b (i + 1)
  unfold u16
  omega

theorem byteAt_drop (b : List UInt8) (k i : ℕ) : byteAt (b.drop k) i = byteAt b (k + i) := by
  simp only [byteAt, List.getD_eq_getElem?_getD, List.getElem?_drop]

theorem byteAt_take {b : List UInt8} {k i : ℕ} (h : i < k) :
    byteAt (b.take k) i = byteAt b i := by
  simp only [byteAt, List.getD_eq_getElem?_getD, List.getElem?_take, h, ↓reduceIte]

theorem u16_drop (b : List UInt8) (k i : ℕ) : u16 (b.drop k) i = u16 b (k + i) := by
  rw [u16, u16, byteAt_drop, byteAt_drop, Nat.add_assoc]

theorem u16_take {b : List UInt8} {k i : ℕ} (h : i + 1 < k) : u16 (b.take k) i = u16 b i := by
  rw [u16, u16, byteAt_take (by omega), byteAt_take h]

@[simp] theorem length_le16 (n : ℕ) : (le16 n).length = 2 := rfl

@[simp] theorem length_le32 (n : ℕ) : (le32 n).length = 4 := rfl

theorem u16_le16_append {n : ℕ} (h : n < 65536) (b : List UInt8) : u16 (le16 n ++ b) 0 = n := by
  simp only [u16, byteAt, le16, List.cons_append, List.nil_append, List.getD_cons_zero,
    List.getD_cons_succ, UInt8.toNat_ofNat', Nat.zero_add]
  omega

/-- From the offset of a copy on, a buffer has the copied bytes and what lies behind them. -/
theorem drop_memcpy {dst : List UInt8} {off : ℕ} (src : List UInt8) (h : off ≤ dst.length) :
    (memcpy dst off src).drop off = src ++ dst.drop (off + src.length) := by
  have hlen : (dst.take off).length = off := List.length_take_of_le h
  rw [memcpy, List.append_assoc, List.drop_append_of_le_length hlen.ge,
    List.drop_eq_nil_of_le hlen.le, List.nil_append]

/-- A copy at the end of what is already stored appends. -/
theorem memcpy_length_eq (dst src : List UInt8) : memcpy dst dst.length src = dst ++ src := by
  rw [memcpy, List.take_length, List.drop_eq_nil_of_le (Nat.le_add_right _ _), List.append_nil]

/-! ### Blocks -/

/-- The string in blocks of `n` bytes, the last one possibly shorter. -/
def blocks (n : ℕ) (b : List UInt8) : List (List UInt8) :=
  (List.range ((b.length + n - 1) / n)).map fun j => (b.drop (n * j)).take n

@[simp] theorem blocks_nil (n : ℕ) : blocks n [] = [] := by
  rcases Nat.eq_zero_or_pos n with rfl | hn
  · rfl
  · have hzero : (0 + n - 1) / n = 0 := Nat.div_eq_of_lt (by omega)
    rw [blocks, List.length_nil, hzero]
    rfl

theorem blocks_of_ne_nil {n : ℕ} (hn : 0 < n) {b : List UInt8} (hb : b ≠ []) :
    blocks n b = b.take n :: blocks n (b.drop n) := by
  have hpos := List.length_pos_iff.mpr hb
  have hcount : (b.length + n - 1) / n = ((b.drop n).length + n - 1) / n + 1 := by
    rw [List.length_drop]
    rcases le_or_gt n b.length with hle | hlt
    · rw [show b.length + n - 1 = (b.length - n + n - 1) + n by omega, Nat.add_div_right _ hn]
    · rw [show b.length - n + n - 1 = n - 1 by omega, Nat.div_eq_of_lt (by omega : n - 1 < n),
        show b.length + n - 1 = (b.length - 1) + n by omega, Nat.add_div_right _ hn,
        Nat.div_eq_of_lt (by omega : b.length - 1 < n)]
  rw [blocks, hcount, List.range_succ_eq_map, List.map_cons, List.map_map, Nat.mul_zero,
    List.drop_zero]
  congr 1
  refine List.map_congr_left fun j _ => ?_
  rw [Function.comp_apply, List.drop_drop, Nat.mul_succ, Nat.add_comm]

end M57Card.Bytes
