import M57Card.Lib.Bytes

/-!
# Memory with little-endian fields

Code that walks through a buffer by pointers may read behind the end of what it was given. Here the
memory is a byte for each address, so that such reads have a value, and a buffer is a byte string
that lies in the memory at an address.

## Main definitions

* `Mem`, `Mem.byteAt`, `Mem.u16`.
* `Mem.Holds` : a byte string lies at an address.
* `Mem.slice` : the bytes from an address on.

## Main results

* `Mem.holds_append` : strings behind each other.
* `Mem.Holds.byteAt_add`, `Mem.Holds.u16_add` : the fields of a string in memory.
* `Mem.slice_write`, `Mem.slice_write_of_le` : a memory after a copy.
-/

namespace M57Card

/-- A byte for each address. -/
def Mem : Type := ℕ → UInt8

namespace Mem

/-- The byte at an address. -/
def byteAt (m : Mem) (p : ℕ) : ℕ := (m p).toNat

/-- The 16-bit little-endian field at an address. -/
def u16 (m : Mem) (p : ℕ) : ℕ := m.byteAt p + 256 * m.byteAt (p + 1)

/-- A byte string at address zero, with zeros behind it. -/
def ofList (b : List UInt8) : Mem := fun p => b.getD p 0

/-- The string `b` lies in memory at the address `p`. -/
def Holds (m : Mem) (p : ℕ) (b : List UInt8) : Prop := ∀ i < b.length, m (p + i) = b.getD i 0

/-- The `n` bytes from an address on. -/
def slice (m : Mem) (p n : ℕ) : List UInt8 := (List.range n).map fun i => m (p + i)

variable {m : Mem} {p : ℕ} {b : List UInt8}

theorem holds_ofList (b : List UInt8) : (ofList b).Holds 0 b := by
  intro i _
  rw [Nat.zero_add]
  rfl

theorem holds_append (a b : List UInt8) :
    m.Holds p (a ++ b) ↔ m.Holds p a ∧ m.Holds (p + a.length) b := by
  constructor
  · intro h
    refine ⟨fun i hi => ?_, fun i hi => ?_⟩
    · rw [h i (by rw [List.length_append]; omega), List.getD_append _ _ _ _ hi]
    · rw [Nat.add_assoc, h _ (by rw [List.length_append]; omega),
        List.getD_append_right _ _ _ _ (Nat.le_add_right _ _), Nat.add_sub_cancel_left]
  · rintro ⟨ha, hb⟩ i hi
    rw [List.length_append] at hi
    by_cases hlt : i < a.length
    · rw [ha i hlt, List.getD_append _ _ _ _ hlt]
    · have hsub := hb (i - a.length) (by omega)
      rw [Nat.add_assoc, Nat.add_sub_cancel' (not_lt.mp hlt)] at hsub
      rw [hsub, List.getD_append_right _ _ _ _ (not_lt.mp hlt)]

theorem Holds.slice_eq (h : m.Holds p b) : m.slice p b.length = b := by
  refine List.ext_getElem (by rw [slice, List.length_map, List.length_range]) fun i hi hb => ?_
  simp only [slice, List.getElem_map, List.getElem_range]
  rw [h i hb, List.getD_eq_getElem _ _ hb]

theorem Holds.byteAt_add (h : m.Holds p b) {i : ℕ} (hi : i < b.length) :
    m.byteAt (p + i) = Bytes.byteAt b i :=
  congrArg UInt8.toNat (h i hi)

theorem Holds.u16_add (h : m.Holds p b) {i : ℕ} (hi : i + 1 < b.length) :
    m.u16 (p + i) = Bytes.u16 b i := by
  rw [u16, Bytes.u16, h.byteAt_add (by omega), Nat.add_assoc, h.byteAt_add hi]

theorem length_slice (m : Mem) (p n : ℕ) : (m.slice p n).length = n := by
  rw [slice, List.length_map, List.length_range]

theorem slice_add (m : Mem) (p a b : ℕ) : m.slice p (a + b) = m.slice p a ++ m.slice (p + a) b := by
  rw [slice, List.range_add, List.map_append, List.map_map]
  refine congrArg _ (List.map_congr_left fun i _ => ?_)
  rw [Function.comp_apply, Nat.add_assoc]

theorem slice_congr {m m' : Mem} {p p' n : ℕ} (h : ∀ i < n, m (p + i) = m' (p' + i)) :
    m.slice p n = m'.slice p' n :=
  List.map_congr_left fun i hi => h i (List.mem_range.mp hi)

theorem take_slice (m : Mem) (p : ℕ) {a n : ℕ} (h : a ≤ n) :
    (m.slice p n).take a = m.slice p a := by
  obtain ⟨b, rfl⟩ := Nat.exists_eq_add_of_le h
  rw [slice_add]
  exact List.take_left' (m.length_slice p a)

/-! ### Copies with a stride -/

/-- The `n` bytes of `src` from `p` on are written at the address `a`. -/
def write (m : Mem) (a : ℕ) (src : Mem) (p n : ℕ) : Mem := fun q =>
  if a ≤ q ∧ q < a + n then src (p + (q - a)) else m q

theorem slice_write (m : Mem) (a : ℕ) (src : Mem) (p n : ℕ) :
    (m.write a src p n).slice a n = src.slice p n :=
  slice_congr fun i hi => by
    rw [write, if_pos ⟨Nat.le_add_right a i, Nat.add_lt_add_left hi a⟩, Nat.add_sub_cancel_left]

/-- What lies before a copy is left as it is. -/
theorem slice_write_of_le (m : Mem) {a q k : ℕ} (src : Mem) (p n : ℕ) (h : q + k ≤ a) :
    (m.write a src p n).slice q k = m.slice q k :=
  slice_congr fun i hi => if_neg fun hle => by omega

theorem slice_ofList (b : List UInt8) : (ofList b).slice 0 b.length = b :=
  (holds_ofList b).slice_eq

theorem drop_slice (m : Mem) (p a n : ℕ) : (m.slice p n).drop a = m.slice (p + a) (n - a) := by
  rcases le_total a n with h | h
  · obtain ⟨b, rfl⟩ := Nat.exists_eq_add_of_le h
    rw [slice_add, List.drop_left' (m.length_slice p a), Nat.add_sub_cancel_left]
  · rw [List.drop_eq_nil_of_le ((m.length_slice p n).le.trans h), Nat.sub_eq_zero_of_le h]
    rfl

/-- Pieces of `n` bytes at `p`, `p + step`, … behind each other make one string. -/
theorem flatMap_slice (m : Mem) (p step n k : ℕ) :
    (List.range k).flatMap (fun i => m.slice (p + i * step) n) =
      (List.range (k * n)).map fun q => m (p + q / n * step + q % n) := by
  induction k with
  | zero => simp
  | succ k ih =>
    rw [List.range_succ, List.flatMap_append, ih, List.flatMap_singleton, slice, Nat.succ_mul,
      List.range_add, List.map_append, List.map_map]
    refine congrArg _ (List.map_congr_left fun i hi => ?_)
    have hn := List.mem_range.mp hi
    have hdiv : (k * n + i) / n = k := by
      rw [Nat.add_comm, Nat.add_mul_div_right _ _ (by omega), Nat.div_eq_of_lt hn, Nat.zero_add]
    have hmod : (k * n + i) % n = i := by
      rw [Nat.add_comm, Nat.add_mul_mod_self_right, Nat.mod_eq_of_lt hn]
    rw [Function.comp_apply, hdiv, hmod]

/-- The piece with the number `k` of a memory that is divided with the stride `s`. -/
theorem mem_piece_iff {s n : ℕ} (hn : n ≤ s) (k q : ℕ) :
    k * s ≤ q ∧ q < k * s + n ↔ q / s = k ∧ q % s < n := by
  have hdiv := Nat.div_add_mod' q s
  constructor
  · rintro ⟨hle, hlt⟩
    have hquot : q / s = k := Nat.div_eq_of_lt_le hle (by rw [Nat.succ_mul]; omega)
    rw [hquot] at hdiv
    exact ⟨hquot, by omega⟩
  · rintro ⟨rfl, hmod⟩
    exact ⟨by omega, by omega⟩

end Mem

end M57Card
