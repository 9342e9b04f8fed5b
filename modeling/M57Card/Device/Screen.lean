import M57Card.Lib.Receive
import M57Card.Lib.Runs
import Mathlib.Algebra.Order.Ring.Int

/-!
# Frames of the screen

The screen sends frames of two header bytes, the number of data bytes and the data. What a serial
read brings, at most 32 bytes of it, is put behind the bytes that came before, and when the buffer
begins with a header and has the bytes that its number asks for, there is a frame. Only then does
the position go back to zero: neither a wrong header nor a full buffer does that.

## Main definitions

* `k600ReadFrame`, `k600Scanf`.
* `frameOf` : a frame with its data.
* `WritesInside`, `HasRoom` : a read is put into the buffer.
* `Delivers`, `Fills` : a read that is a frame is returned as it is, and when the next one will be.

## Main results

* `complete_iff`, `complete_put_iff` : when a frame is seen.
* `screen_frames` : the writes of a run, a frame in pieces, and the second of two frames.
-/

namespace M57Card.Device.K600

open Receive

/-! ### The receiver -/

/-- `FRAME_HEADER1`. -/
def FRAME_HEADER1 : UInt8 := 0x5a

/-- `FRAME_HEADER2`. -/
def FRAME_HEADER2 : UInt8 := 0xa5

/-- `FRAME_HEADER_LEN`. -/
def FRAME_HEADER_LEN : ℕ := 3

/-- `FRAME_MAX_LEN`. -/
def FRAME_MAX_LEN : ℕ := 32

/-- `k600_read_frame`, with its static `offset` and `frame_buf` in `b`. The difference is that of
two `size_t`, as an `int`. -/
def k600ReadFrame (b : Buffer) (revData : List UInt8) (frameLen : ℕ) : Buffer × ℕ :=
  let b := b.put (revData.take frameLen)
  if b.mem 0 = FRAME_HEADER1 ∧ b.mem 1 = FRAME_HEADER2 then
    if 0 < b.mem.byteAt 2 ∧
        (b.mem.byteAt 2 : ℤ) ≤ ((b.offset : ℤ) - FRAME_HEADER_LEN).bmod (2 ^ 32) then
      ({ b with offset := 0 }, b.mem.byteAt 2 + FRAME_HEADER_LEN)
    else (b, 0)
  else (b, 0)

/-- `k600_scanf` as far as the frame, which it takes out of the buffer before it is cleared. -/
def k600Scanf (b : Buffer) (pdata : List UInt8) : Buffer × Option (List UInt8) :=
  match k600ReadFrame b pdata FRAME_MAX_LEN with
  | (b, 0) => (b, none)
  | (b, frameLen) =>
    ({ b with mem := b.mem.write 0 (fun _ => 0) 0 FRAME_MAX_LEN }, some (b.mem.slice 0 frameLen))

/-- The buffer before the first read. -/
def start : Buffer where
  mem := fun _ => 0
  offset := 0

/-- The buffer after some reads. -/
def after (reads : List (List UInt8)) : Buffer :=
  reads.foldl (fun b pdata => (k600Scanf b pdata).1) start

/-- A frame with its data. -/
def frameOf (data : List UInt8) : List UInt8 :=
  [FRAME_HEADER1, FRAME_HEADER2, UInt8.ofNat data.length] ++ data

/-- The buffer begins with a frame. -/
def Complete (b : Buffer) : Prop :=
  b.mem 0 = FRAME_HEADER1 ∧ b.mem 1 = FRAME_HEADER2 ∧ 0 < b.mem.byteAt 2 ∧
    (b.mem.byteAt 2 : ℤ) ≤ ((b.offset : ℤ) - FRAME_HEADER_LEN).bmod (2 ^ 32)

/-- Without a frame a read is kept. -/
theorem k600Scanf_of_not_complete {b : Buffer} {pdata : List UInt8}
    (h : ¬ Complete (b.put (pdata.take FRAME_MAX_LEN))) :
    k600Scanf b pdata = (b.put (pdata.take FRAME_MAX_LEN), none) := by
  have hread : k600ReadFrame b pdata FRAME_MAX_LEN = (b.put (pdata.take FRAME_MAX_LEN), 0) := by
    unfold k600ReadFrame
    dsimp only
    split_ifs with hheader hlen
    · exact absurd ⟨hheader.1, hheader.2, hlen⟩ h
    · rfl
    · rfl
  rw [k600Scanf, hread]
  rfl

/-- With a frame the position goes back to zero. -/
theorem k600Scanf_of_complete {b : Buffer} {pdata : List UInt8}
    (h : Complete (b.put (pdata.take FRAME_MAX_LEN))) :
    (k600Scanf b pdata).1.offset = 0 ∧
      (k600Scanf b pdata).2 = some ((b.put (pdata.take FRAME_MAX_LEN)).mem.slice 0
        ((b.put (pdata.take FRAME_MAX_LEN)).mem.byteAt 2 + FRAME_HEADER_LEN)) := by
  have hread : k600ReadFrame b pdata FRAME_MAX_LEN =
      ({ b.put (pdata.take FRAME_MAX_LEN) with offset := 0 },
        (b.put (pdata.take FRAME_MAX_LEN)).mem.byteAt 2 + FRAME_HEADER_LEN) := by
    rw [k600ReadFrame, if_pos ⟨h.1, h.2.1⟩, if_pos h.2.2]
  rw [k600Scanf, hread]
  exact ⟨rfl, rfl⟩

/-! ### A frame in the buffer -/

theorem bmod_of_small {x : ℤ} (hlo : -2 ^ 31 ≤ x) (hhi : x < 2 ^ 31) : x.bmod (2 ^ 32) = x :=
  Int.bmod_eq_of_le (by omega) (by omega)

theorem length_frameOf (data : List UInt8) : (frameOf data).length = data.length + 3 := rfl

/-- The header and the number, once they have come. -/
theorem header_of_got {b : Buffer} {got data : List UInt8} (hgot : b.Got got)
    (hdata : data.length ≤ 29) (hfront : got <+: frameOf data) (hthree : 3 ≤ got.length) :
    b.mem 0 = FRAME_HEADER1 ∧ b.mem 1 = FRAME_HEADER2 ∧ b.mem.byteAt 2 = data.length := by
  have hbyte {i : ℕ} (hi : i < 3) : b.mem i = (frameOf data).getD i 0 := by
    obtain ⟨rest, hrest⟩ := hfront
    rw [hgot.mem_eq (by omega), ← hrest, List.getD_append _ _ _ _ (by omega)]
  refine ⟨hbyte (by decide), hbyte (by decide), ?_⟩
  rw [Mem.byteAt, hbyte (by decide)]
  exact UInt8.toNat_ofNat_of_lt (hdata.trans_lt (by decide))

/-- From the front of a frame, the whole of it is seen, and only when it has data. -/
theorem complete_iff {b : Buffer} {got data : List UInt8} (hgot : b.Got got)
    (hdata : data.length ≤ 29) (hfront : got <+: frameOf data) :
    Complete b ↔ got = frameOf data ∧ data ≠ [] := by
  have hlen := hfront.length_le
  rw [length_frameOf] at hlen
  have hwhole : got = frameOf data ↔ got.length = data.length + 3 :=
    ⟨fun h => by rw [h, length_frameOf], hfront.eq_of_length⟩
  have hoffset := hgot.1
  have hint : ((b.offset : ℤ) - FRAME_HEADER_LEN).bmod (2 ^ 32) = (got.length : ℤ) - 3 := by
    rw [hoffset]
    exact bmod_of_small (by unfold FRAME_HEADER_LEN; omega) (by unfold FRAME_HEADER_LEN; omega)
  rw [hwhole, Complete, hint, ← List.length_pos_iff]
  by_cases hthree : 3 ≤ got.length
  · obtain ⟨hone, htwo, hcount⟩ := header_of_got hgot hdata hfront hthree
    rw [hcount]
    constructor
    · rintro ⟨-, -, hpos, hle⟩
      exact ⟨by omega, hpos⟩
    · rintro ⟨hall, hpos⟩
      exact ⟨hone, htwo, hpos, by omega⟩
  · exact iff_of_false (fun h => by omega) fun h => by omega

/-- A frame with these data fills the buffer: it is empty and the frame is not, or it begins with a
header whose number the new bytes reach. -/
def Fills (b : Buffer) (data : List UInt8) : Prop :=
  b.offset = 0 ∧ data ≠ [] ∨
    3 ≤ b.offset ∧ b.mem 0 = FRAME_HEADER1 ∧ b.mem 1 = FRAME_HEADER2 ∧ 0 < b.mem.byteAt 2 ∧
      (b.mem.byteAt 2 : ℤ) ≤ ((b.offset : ℤ) + data.length).bmod (2 ^ 32)

/-- A frame behind what is in the buffer. -/
theorem complete_put_iff (b : Buffer) {data : List UInt8} (hdata : data.length ≤ 29) :
    Complete (b.put (frameOf data)) ↔ Fills b data := by
  unfold Fills
  by_cases hzero : b.offset = 0
  · have hgot := (Buffer.got_nil hzero).put (frameOf data)
    rw [List.nil_append] at hgot
    rw [complete_iff hgot hdata List.prefix_rfl]
    constructor
    · exact fun h => Or.inl ⟨hzero, h.2⟩
    · rintro (h | h)
      · exact ⟨rfl, h.2⟩
      · omega
  · have hnew (h : b.offset < 3) : ¬ Complete (b.put (frameOf data)) := by
      -- the first header byte stands where the second one, or the number, is looked for
      have hheader : (b.put (frameOf data)).mem b.offset = FRAME_HEADER1 :=
        Buffer.put_mem_add (frameOf data) (Nat.succ_pos _)
      rintro ⟨-, htwo, -, hle⟩
      rcases (by omega : b.offset = 1 ∨ b.offset = 2) with hpos | hpos
      · rw [hpos, htwo] at hheader
        exact absurd hheader (by decide)
      · rw [hpos] at hheader
        have hoffset : (b.put (frameOf data)).offset = data.length + 5 := by
          rw [Buffer.put_offset, hpos, length_frameOf]
          omega
        rw [Mem.byteAt, hheader, hoffset, bmod_of_small (by unfold FRAME_HEADER_LEN; omega)
          (by unfold FRAME_HEADER_LEN; omega)] at hle
        have hbyte : FRAME_HEADER1.toNat = 90 := rfl
        have hlen : FRAME_HEADER_LEN = 3 := rfl
        omega
    by_cases hthree : 3 ≤ b.offset
    · have hkeep {i : ℕ} (hi : i < 3) : (b.put (frameOf data)).mem i = b.mem i :=
        Buffer.put_mem_of_lt _ (by omega)
      have hoffset : ((b.put (frameOf data)).offset : ℤ) - FRAME_HEADER_LEN =
          b.offset + data.length := by
        rw [Buffer.put_offset, length_frameOf]
        unfold FRAME_HEADER_LEN
        push_cast
        omega
      rw [Complete, hoffset, Mem.byteAt, hkeep (by decide), hkeep (by decide), hkeep (by decide)]
      constructor
      · exact fun h => Or.inr ⟨hthree, h⟩
      · rintro (h | h)
        · exact absurd h.1 hzero
        · exact h.2
    · refine iff_of_false (hnew (by omega)) ?_
      rintro (h | h)
      · exact hzero h.1
      · exact hthree h.1

/-! ### Reads -/

/-- A read is written inside the buffer. -/
def WritesInside (b : Buffer) (pdata : List UInt8) : Prop :=
  ∀ i, b.offset ≤ i → i < b.offset + (pdata.take FRAME_MAX_LEN).length → i < FRAME_MAX_LEN

/-- There is room for what a read puts into the buffer. -/
def HasRoom (b : Buffer) (pdata : List UInt8) : Prop :=
  b.offset + min pdata.length FRAME_MAX_LEN ≤ FRAME_MAX_LEN

/-- The frame that a read brings stands at the front of the buffer and is returned. -/
def Delivers (b : Buffer) (frame : List UInt8) : Prop :=
  b.offset = 0 ∧ (k600Scanf b frame).2 = some frame

theorem take_frameOf {data : List UInt8} (hdata : data.length ≤ 29) :
    (frameOf data).take FRAME_MAX_LEN = frameOf data :=
  List.take_of_length_le (by rw [length_frameOf]; unfold FRAME_MAX_LEN; omega)

theorem offset_k600Scanf_le (b : Buffer) (pdata : List UInt8) :
    (k600Scanf b pdata).1.offset ≤ b.offset + min pdata.length FRAME_MAX_LEN := by
  by_cases h : Complete (b.put (pdata.take FRAME_MAX_LEN))
  · rw [(k600Scanf_of_complete h).1]
    exact Nat.zero_le _
  · rw [k600Scanf_of_not_complete h, Buffer.put_offset, List.length_take, Nat.min_comm]

/-- Under the bound a read is written inside exactly when there is room. -/
theorem writesInside_iff {b : Buffer} (hb : b.offset ≤ FRAME_MAX_LEN) (pdata : List UInt8) :
    WritesInside b pdata ↔ HasRoom b pdata := by
  have hlen : (pdata.take FRAME_MAX_LEN).length = min pdata.length FRAME_MAX_LEN := by
    rw [List.length_take, Nat.min_comm]
  rw [WritesInside, HasRoom, hlen]
  constructor
  · intro h
    by_contra hover
    have hlast := h (b.offset + min pdata.length FRAME_MAX_LEN - 1) (by omega) (by omega)
    omega
  · intro h i _ hi
    omega

/-- A piece of a frame is not cut. -/
theorem take_piece {got piece data : List UInt8} (hdata : data.length ≤ 29)
    (hfront : got ++ piece <+: frameOf data) : piece.take FRAME_MAX_LEN = piece := by
  have hlen := hfront.length_le
  rw [List.length_append, length_frameOf] at hlen
  exact List.take_of_length_le (by unfold FRAME_MAX_LEN; omega)

/-- A part of a frame is kept. -/
theorem k600Scanf_part {b : Buffer} {got piece data : List UInt8} (hgot : b.Got got)
    (hdata : data.length ≤ 29) (hfront : got ++ piece <+: frameOf data)
    (hpart : got ++ piece ≠ frameOf data ∨ data = []) :
    (k600Scanf b piece).2 = none ∧ (k600Scanf b piece).1.Got (got ++ piece) := by
  have htake := take_piece hdata hfront
  have hnot : ¬ Complete (b.put (piece.take FRAME_MAX_LEN)) := by
    rw [htake, complete_iff (hgot.put piece) hdata hfront, not_and_or, not_not]
    exact hpart
  rw [k600Scanf_of_not_complete hnot, htake]
  exact ⟨rfl, hgot.put piece⟩

/-- The last piece returns the frame. -/
theorem k600Scanf_whole {b : Buffer} {got piece data : List UInt8} (hgot : b.Got got)
    (hdata : data.length ≤ 29) (hne : data ≠ []) (hwhole : got ++ piece = frameOf data) :
    (k600Scanf b piece).2 = some (frameOf data) ∧ (k600Scanf b piece).1.offset = 0 := by
  have hfront : got ++ piece <+: frameOf data := hwhole ▸ List.prefix_rfl
  have htake := take_piece hdata hfront
  have hput := hgot.put piece
  rw [hwhole] at hput
  have hcomplete : Complete (b.put (piece.take FRAME_MAX_LEN)) := by
    rw [htake, complete_iff hput hdata List.prefix_rfl]
    exact ⟨rfl, hne⟩
  obtain ⟨hzero, hsome⟩ := k600Scanf_of_complete hcomplete
  obtain ⟨-, -, hcount⟩ := header_of_got hput hdata List.prefix_rfl (Nat.le_add_left 3 _)
  have hslice := hput.slice_eq
  rw [hput.1, length_frameOf] at hslice
  rw [htake, hcount, FRAME_HEADER_LEN, hslice] at hsome
  exact ⟨hsome, hzero⟩

/-- Nothing comes of a read of nothing where the position is zero. -/
theorem k600Scanf_nil {b : Buffer} (hb : b.offset = 0) :
    (k600Scanf b []).2 = none ∧ (k600Scanf b []).1.offset = 0 := by
  have hfront : ([] : List UInt8) ++ [] <+: frameOf [] := List.nil_prefix
  obtain ⟨hnone, hgot⟩ := k600Scanf_part (Buffer.got_nil hb) (by exact Nat.zero_le 29) hfront
    (Or.inr rfl)
  exact ⟨hnone, hgot.1⟩

/-- A frame in pieces is returned once when it has data. -/
theorem outputs_frameOf {b : Buffer} (hb : b.offset = 0) {data : List UInt8}
    (hdata : data.length ≤ 29) {pieces : List (List UInt8)}
    (hpieces : pieces.flatten = frameOf data) :
    outputs k600Scanf b pieces = [frameOf data] ↔ data ≠ [] := by
  have hgot := Buffer.got_nil hb
  constructor
  · rintro houtputs rfl
    have hnone := outputs_of_parts k600Scanf (fun got b => b.Got got) (frameOf [])
      (fun b got piece hgot hfront => k600Scanf_part hgot hdata hfront (Or.inr rfl)) hgot pieces
      (hpieces ▸ List.prefix_rfl)
    rw [hnone] at houtputs
    exact absurd houtputs (List.cons_ne_nil _ _).symm
  · intro hne
    exact outputs_of_frame k600Scanf (fun got b => b.Got got) (fun b => b.offset = 0)
      (fun b got piece hgot hfront hpart => k600Scanf_part hgot hdata hfront (Or.inl hpart))
      (fun b got piece hgot _ hwhole => k600Scanf_whole hgot hdata hne hwhole)
      (fun b hb => k600Scanf_nil hb) hgot (List.cons_ne_nil _ _).symm pieces hpieces

/-- A frame is delivered where the position is zero. -/
theorem delivers_iff (b : Buffer) {data : List UInt8} (hdata : data.length ≤ 29) :
    Delivers b (frameOf data) ↔ b.offset = 0 ∧ data ≠ [] := by
  refine and_congr_right fun hb => ?_
  constructor
  · rintro hsome rfl
    have hfront : [] ++ frameOf [] <+: frameOf [] := List.prefix_rfl
    have hnone := (k600Scanf_part (Buffer.got_nil hb) hdata hfront (Or.inr rfl)).1
    rw [hnone] at hsome
    cases hsome
  · exact fun hne => (k600Scanf_whole (Buffer.got_nil hb) hdata hne rfl).1

/-- The position after a frame in a read of its own. -/
theorem offset_k600Scanf_frameOf (b : Buffer) {data : List UInt8} (hdata : data.length ≤ 29) :
    (k600Scanf b (frameOf data)).1.offset = 0 ↔ Complete (b.put (frameOf data)) := by
  have htake := take_frameOf hdata
  by_cases h : Complete (b.put ((frameOf data).take FRAME_MAX_LEN))
  · rw [htake] at h
    exact iff_of_true (k600Scanf_of_complete (by rwa [htake])).1 h
  · rw [k600Scanf_of_not_complete h, htake, Buffer.put_offset, length_frameOf]
    rw [htake] at h
    exact iff_of_false (by omega) h

/-- The reads of a run are written inside the buffer when there is room for each of them. Where the
position is zero a frame in pieces is returned once, if it has data. The second of two frames is
delivered if it has data and the first one fills the buffer. -/
theorem screen_frames (reads : List (List UInt8)) :
    ((∀ pre pdata, pre ++ [pdata] <+: reads → WritesInside (after pre) pdata) ↔
      ∀ pre pdata, pre ++ [pdata] <+: reads → HasRoom (after pre) pdata) ∧
    (∀ data pieces, data.length ≤ 29 → pieces.flatten = frameOf data → (after reads).offset = 0 →
      (outputs k600Scanf (after reads) pieces = [frameOf data] ↔ data ≠ [])) ∧
    ∀ data data', data.length ≤ 29 → data'.length ≤ 29 →
      (Delivers (after (reads ++ [frameOf data])) (frameOf data') ↔
        data' ≠ [] ∧ Fills (after reads) data) := by
  refine ⟨?_, fun data pieces hdata hpieces hzero => outputs_frameOf hzero hdata hpieces,
    fun data data' hdata hdata' => ?_⟩
  · exact forall_steps_iff (P := fun b => b.offset ≤ FRAME_MAX_LEN) (Nat.zero_le _)
      (fun b pdata _ hroom => (offset_k600Scanf_le b pdata).trans hroom)
      (fun b pdata hb => writesInside_iff hb pdata) reads
  · have hafter : after (reads ++ [frameOf data]) = (k600Scanf (after reads) (frameOf data)).1 := by
      rw [after, List.foldl_append]
      rfl
    rw [delivers_iff _ hdata', hafter, offset_k600Scanf_frameOf _ hdata, complete_put_iff _ hdata,
      and_comm]

theorem screen_frames_inPieces :
    (outputs k600Scanf (after []) [[0x5a], [0xa5, 1], [7]] = [frameOf [7]] ↔
        ([7] : List UInt8) ≠ []) ∧
      (Delivers (after [[0x5a, 0xa5, 5], frameOf [1, 2]]) (frameOf [3]) ↔
        ([3] : List UInt8) ≠ [] ∧ Fills (after [[0x5a, 0xa5, 5]]) [1, 2]) :=
  ⟨(screen_frames []).2.1 [7] [[0x5a], [0xa5, 1], [7]] (by decide) rfl rfl,
    (screen_frames [[0x5a, 0xa5, 5]]).2.2 [1, 2] [3] (by decide) (by decide)⟩

/-- Two reads of twenty bytes with no header, a frame with no data, and a byte in front of two
frames. -/
theorem not_screen_frames :
    ¬ WritesInside (after [List.replicate 20 0]) (List.replicate 20 0) ∧
      outputs k600Scanf start [frameOf []] = [] ∧
      ¬ Delivers (after [[0], frameOf [1]]) (frameOf [2]) := by
  refine ⟨fun h => ?_, by decide, fun h => absurd h.1 (by decide)⟩
  exact absurd (h 39 (by decide) (by decide)) (by decide)

end M57Card.Device.K600
