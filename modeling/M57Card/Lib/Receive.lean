import M57Card.Lib.Memory

/-!
# Frames that arrive in pieces

A receiver puts what it reads into a buffer, behind what it has read before, and looks whether the
buffer holds a frame. The buffer is a memory and a position; what lies behind the position is left
from before. A receiver that takes a proper part of a frame without a result, and the whole of it
with one, has this result once from the pieces of the frame, however it is cut.

## Main definitions

* `Buffer`, `Buffer.put` : a buffer that is filled, and what is read put into it.
* `Buffer.Got` : the bytes that have come since the position was zero.
* `outputs` : the results of a receiver, read by read.

## Main results

* `Buffer.Got.put`.
* `outputs_of_parts`, `outputs_of_frame` : parts without a result, and a whole frame.
-/

namespace M57Card.Receive

/-! ### The buffer -/

/-- A buffer with the position behind what has been read. -/
structure Buffer where
  mem : Mem
  offset : ℕ

namespace Buffer

/-- `memcpy` at the position, which goes on by as much. -/
def put (b : Buffer) (piece : List UInt8) : Buffer where
  mem := b.mem.write b.offset (Mem.ofList piece) 0 piece.length
  offset := b.offset + piece.length

/-- The bytes that have come since the position was zero. -/
def Got (b : Buffer) (got : List UInt8) : Prop :=
  b.offset = got.length ∧ b.mem.Holds 0 got

variable {b : Buffer} {got : List UInt8}

theorem got_nil (h : b.offset = 0) : b.Got [] := ⟨h, fun i hi => absurd hi (Nat.not_lt_zero i)⟩

theorem put_offset (piece : List UInt8) : (b.put piece).offset = b.offset + piece.length := rfl

theorem put_nil : b.put [] = b := by
  have hmem : (b.put []).mem = b.mem := funext fun i => if_neg fun h => by
    simp only [List.length_nil] at h
    omega
  exact congrArg (fun m => Buffer.mk m b.offset) hmem

/-- What lies in front of the position stays. -/
theorem put_mem_of_lt (piece : List UInt8) {i : ℕ} (hi : i < b.offset) :
    (b.put piece).mem i = b.mem i :=
  if_neg fun h => absurd h.1 (not_le.mpr hi)

theorem put_mem_add (piece : List UInt8) {i : ℕ} (hi : i < piece.length) :
    (b.put piece).mem (b.offset + i) = piece.getD i 0 := by
  have hin : b.offset ≤ b.offset + i ∧ b.offset + i < b.offset + piece.length :=
    ⟨Nat.le_add_right _ _, Nat.add_lt_add_left hi _⟩
  simp only [put, Mem.write]
  rw [if_pos hin, Nat.zero_add, Nat.add_sub_cancel_left]
  rfl

/-- A piece is put behind what has come. -/
theorem Got.put (h : b.Got got) (piece : List UInt8) : (b.put piece).Got (got ++ piece) := by
  obtain ⟨hoffset, hholds⟩ := h
  refine ⟨by rw [put_offset, hoffset, List.length_append], ?_⟩
  refine (Mem.holds_append got piece).mpr ⟨?_, ?_⟩
  · intro i hi
    rw [put_mem_of_lt piece (by omega)]
    exact hholds i hi
  · intro i hi
    rw [Nat.zero_add, ← hoffset]
    exact put_mem_add piece hi

/-- A byte that has come. -/
theorem Got.mem_eq (h : b.Got got) {i : ℕ} (hi : i < got.length) : b.mem i = got.getD i 0 := by
  have hbyte := h.2 i hi
  rwa [Nat.zero_add] at hbyte

/-- All that has come. -/
theorem Got.slice_eq (h : b.Got got) : b.mem.slice 0 b.offset = got := by
  rw [h.1]
  exact h.2.slice_eq

end Buffer

/-! ### The results of a receiver -/

section Outputs

variable {S α β : Type*} (step : S → List α → S × Option β)

/-- The results of a receiver, read by read. -/
def outputs : S → List (List α) → List β
  | _, [] => []
  | s, piece :: pieces => (step s piece).2.toList ++ outputs (step s piece).1 pieces

variable (Part : List α → S → Prop) (Idle : S → Prop) (frame : List α) {b : β}

/-- The pieces of a frame have no result when none of its parts has one. -/
theorem outputs_of_parts
    (hpart : ∀ s got piece, Part got s → got ++ piece <+: frame →
      (step s piece).2 = none ∧ Part (got ++ piece) (step s piece).1)
    {s : S} {got : List α} (hs : Part got s) (pieces : List (List α))
    (hfront : got ++ pieces.flatten <+: frame) : outputs step s pieces = [] := by
  induction pieces generalizing s got with
  | nil => rfl
  | cons piece pieces ih =>
    rw [List.flatten_cons, ← List.append_assoc] at hfront
    obtain ⟨hnone, hrest⟩ := hpart s got piece hs ((List.prefix_append _ _).trans hfront)
    rw [outputs, hnone, ih hrest hfront]
    rfl

variable {step Idle frame}

/-- Reads of nothing have no result where a receiver is idle. -/
theorem outputs_of_idle
    (hidle : ∀ s, Idle s → (step s []).2 = none ∧ Idle (step s []).1) {s : S} (hs : Idle s)
    (pieces : List (List α)) (hnil : pieces.flatten = []) : outputs step s pieces = [] := by
  induction pieces generalizing s with
  | nil => rfl
  | cons piece pieces ih =>
    obtain ⟨rfl, hrest⟩ := List.append_eq_nil_iff.mp (List.flatten_cons ▸ hnil)
    obtain ⟨hnone, hnext⟩ := hidle s hs
    rw [outputs, hnone, ih hnext hrest]
    rfl

variable (step Idle)

/-- The pieces of a whole frame have one result, however it is cut. -/
theorem outputs_of_frame
    (hpart : ∀ s got piece, Part got s → got ++ piece <+: frame → got ++ piece ≠ frame →
      (step s piece).2 = none ∧ Part (got ++ piece) (step s piece).1)
    (hwhole : ∀ s got piece, Part got s → got ≠ frame → got ++ piece = frame →
      (step s piece).2 = some b ∧ Idle (step s piece).1)
    (hidle : ∀ s, Idle s → (step s []).2 = none ∧ Idle (step s []).1)
    {s : S} {got : List α} (hs : Part got s) (hgot : got ≠ frame) (pieces : List (List α))
    (hframe : got ++ pieces.flatten = frame) : outputs step s pieces = [b] := by
  induction pieces generalizing s got with
  | nil => exact absurd (by rw [← hframe, List.flatten_nil, List.append_nil]) hgot
  | cons piece pieces ih =>
    rw [List.flatten_cons, ← List.append_assoc] at hframe
    by_cases heq : got ++ piece = frame
    · obtain ⟨hsome, hidle'⟩ := hwhole s got piece hs hgot heq
      have hnil : pieces.flatten = [] := List.append_right_eq_self.mp (heq.symm ▸ hframe)
      rw [outputs, hsome, outputs_of_idle hidle hidle' pieces hnil]
      rfl
    · obtain ⟨hnone, hrest⟩ := hpart s got piece hs ⟨_, hframe⟩ heq
      rw [outputs, hnone, ih hrest heq hframe]
      rfl

end Outputs

end M57Card.Receive
