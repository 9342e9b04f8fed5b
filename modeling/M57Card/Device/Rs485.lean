import M57Card.Lib.Receive
import M57Card.Lib.Runs
import Mathlib.Algebra.Order.Ring.Int

/-!
# Frames on the RS485 line

A frame has a header byte, two bytes that are not used, a type, the number of data bytes with the
high byte first, the data in that order, and an end byte. What is read goes behind what is in the
buffer, and a frame is there when the position is as far as the number says and the byte in front of
it is the end byte. A wrong header and a number above four are errors; both leave the position.

The value of a frame is put together in an `int`. It is then used as the source of the copy into the
caller's data, so what arrives there is what the process has at the address that the value happens
to be.

## Main definitions

* `rs485ComReadFrame`, `rs485ComRecv`, `rs485AssembleSendData`.
* `HoldsAt` : the process has given bytes at an address.
* `TouchesInside`, `HasRoom` : what a read touches of the buffer.

## Main results

* `outputs_frameOf` : a frame is accepted once, from its last piece.
* `outputs_of_stuck` : behind an error with something in the buffer nothing is accepted.
* `rs485_frames`.
-/

namespace M57Card.Device.Rs485

open Receive

/-! ### The receiver and the sender -/

/-- `FRAME_HEADER`. -/
def FRAME_HEADER : UInt8 := 0x7e

/-- `FRAME_END`. -/
def FRAME_END : UInt8 := 0x7f

/-- `FRAME_DATA_LEN_OFFSET`. -/
def FRAME_DATA_LEN_OFFSET : ℕ := 4

/-- `FRAME_DATA_LEN`. -/
def FRAME_DATA_LEN : ℕ := 2

/-- `FRAME_MAX_LEN`. -/
def FRAME_MAX_LEN : ℕ := 1024

/-- The members of `struct _frame_data` that the receiver looks at. -/
structure Frame where
  type : UInt8
  validLen : ℕ
  data : List UInt8

/-- `valid_data_len`, with the high byte first; it is looked at from the first of its bytes on. -/
def validDataLen (b : Buffer) : ℕ :=
  if FRAME_DATA_LEN_OFFSET + 1 ≤ b.offset then
    256 * b.mem.byteAt FRAME_DATA_LEN_OFFSET + b.mem.byteAt (FRAME_DATA_LEN_OFFSET + 1)
  else 0

/-- `_rs485_com_read_frame` with `frame_read` in `b`: the value returned, and the frame. -/
def rs485ComReadFrame (b : Buffer) (revData : List UInt8) : Buffer × ℤ × Option Frame :=
  let b := b.put (revData.take FRAME_MAX_LEN)
  if b.mem 0 = FRAME_HEADER then
    if 4 < validDataLen b then (b, -1, none)
    else if FRAME_DATA_LEN_OFFSET + FRAME_DATA_LEN + validDataLen b + 1 ≤ b.offset ∧
        b.mem (b.offset - 1) = FRAME_END then
      ({ b with offset := 0 }, b.offset,
        some ⟨b.mem 3, validDataLen b,
          b.mem.slice (FRAME_DATA_LEN_OFFSET + FRAME_DATA_LEN) (validDataLen b)⟩)
    else (b, 0, none)
  else (b, -1, none)

/-- `idata` from the data of a frame, by their number: the bytes are turned, and a single byte is
signed. -/
def idataOf : List UInt8 → Option ℤ
  | [x, y, z, w] =>
    some (Int.bmod (w.toNat + 256 * (z.toNat + 256 * (y.toNat + 256 * x.toNat))) (2 ^ 32))
  | [x, y] => some (y.toNat + 256 * x.toNat)
  | [x] => some (Int.bmod x.toNat (2 ^ 8))
  | _ => none

/-- The `n` bytes that the process has from an address on, if it can read them. -/
def readBytes (proc : ℤ → Option UInt8) : ℤ → ℕ → Option (List UInt8)
  | _, 0 => some []
  | a, n + 1 => (proc a).bind fun x => (readBytes proc (a + 1) n).map (x :: ·)

/-- A frame that is accepted: its type, and what is copied to the caller's data; `none` is a copy
from where nothing can be read. -/
structure Accepted where
  type : UInt8
  data : Option (List UInt8)
deriving DecidableEq

/-- `_rs485_com_recv`. The source of its last `memcpy` is the value of `idata`, as an address. -/
def rs485ComRecv (proc : ℤ → Option UInt8) (b : Buffer) (pdata : List UInt8) :
    Buffer × ℤ × Option Accepted :=
  match rs485ComReadFrame b pdata with
  | (b, ret, none) => (b, ret, none)
  | (b, _, some frame) =>
    if 4 < frame.validLen then (b, -1, none)
    else
      match idataOf frame.data with
      | none => (b, -1, none)
      | some idata =>
        ({ mem := b.mem.write 0 (fun _ => 0) 0 FRAME_MAX_LEN, offset := 0 }, 1,
          some ⟨frame.type, readBytes proc idata frame.validLen⟩)

/-- `_rs485_assemble_send_data`; `data` are the bytes at the caller's pointer, if there is one. On a
little-endian host `htonl` and `htons` turn the bytes around. -/
def rs485AssembleSendData (cmd : UInt8) (data : Option (List UInt8)) (len : ℕ) :
    Option (List UInt8) :=
  let len := min len (FRAME_MAX_LEN - FRAME_DATA_LEN_OFFSET)
  let head := [FRAME_HEADER, 0, 0, cmd, UInt8.ofNat (len / 256), UInt8.ofNat len]
  match data with
  | none => some (head ++ List.replicate len 0 ++ [FRAME_END])
  | some data =>
    if len = 0 then some (head ++ [FRAME_END])
    else if len = 4 ∨ len = 2 ∨ len = 1 then some (head ++ (data.take len).reverse ++ [FRAME_END])
    else none

/-- The results of the receiver, without the values returned. -/
def receive (proc : ℤ → Option UInt8) (b : Buffer) (pdata : List UInt8) :
    Buffer × Option Accepted :=
  ((rs485ComRecv proc b pdata).1, (rs485ComRecv proc b pdata).2.2)

/-- `rs485_com_init`. -/
def start : Buffer where
  mem := fun _ => 0
  offset := 0

/-- The buffer after some reads. -/
def after (proc : ℤ → Option UInt8) (reads : List (List UInt8)) : Buffer :=
  reads.foldl (fun b pdata => (rs485ComRecv proc b pdata).1) start

/-! ### One read -/

/-- The buffer holds a frame. -/
def Accepts (b : Buffer) : Prop :=
  b.mem 0 = FRAME_HEADER ∧ validDataLen b ≤ 4 ∧ 7 + validDataLen b ≤ b.offset ∧
    b.mem (b.offset - 1) = FRAME_END

/-- The buffer does not begin as a frame does. -/
def Faulty (b : Buffer) : Prop := b.mem 0 ≠ FRAME_HEADER ∨ 4 < validDataLen b

variable {b : Buffer} {pdata : List UInt8}

theorem rs485ComReadFrame_of_accepts (h : Accepts (b.put (pdata.take FRAME_MAX_LEN))) :
    rs485ComReadFrame b pdata =
      ({ b.put (pdata.take FRAME_MAX_LEN) with offset := 0 },
        ((b.put (pdata.take FRAME_MAX_LEN)).offset : ℤ),
        some ⟨(b.put (pdata.take FRAME_MAX_LEN)).mem 3,
          validDataLen (b.put (pdata.take FRAME_MAX_LEN)),
          (b.put (pdata.take FRAME_MAX_LEN)).mem.slice 6
            (validDataLen (b.put (pdata.take FRAME_MAX_LEN)))⟩) := by
  obtain ⟨hheader, hlen, hoffset, hend⟩ := h
  have hread : FRAME_DATA_LEN_OFFSET + FRAME_DATA_LEN +
      validDataLen (b.put (pdata.take FRAME_MAX_LEN)) + 1 ≤
        (b.put (pdata.take FRAME_MAX_LEN)).offset := by
    unfold FRAME_DATA_LEN_OFFSET FRAME_DATA_LEN
    omega
  rw [rs485ComReadFrame, if_pos hheader, if_neg (not_lt.mpr hlen), if_pos ⟨hread, hend⟩]
  rfl

/-- Without a frame a read is kept, and the value returned says whether the buffer is faulty. -/
theorem rs485ComReadFrame_of_not_accepts (h : ¬ Accepts (b.put (pdata.take FRAME_MAX_LEN))) :
    (rs485ComReadFrame b pdata).1 = b.put (pdata.take FRAME_MAX_LEN) ∧
      (rs485ComReadFrame b pdata).2.2 = none ∧
      ((rs485ComReadFrame b pdata).2.1 < 0 ↔ Faulty (b.put (pdata.take FRAME_MAX_LEN))) := by
  unfold rs485ComReadFrame
  dsimp only
  have herror : (-1 : ℤ) < 0 := by decide
  split_ifs with hheader hlen hframe
  · exact ⟨rfl, rfl, iff_of_true herror (Or.inr hlen)⟩
  · have hread := hframe.1
    unfold FRAME_DATA_LEN_OFFSET FRAME_DATA_LEN at hread
    exact absurd ⟨hheader, not_lt.mp hlen, by omega, hframe.2⟩ h
  · refine ⟨rfl, rfl, iff_of_false (lt_irrefl (0 : ℤ)) ?_⟩
    rintro (hne | hlt)
    · exact hne hheader
    · exact hlen hlt
  · exact ⟨rfl, rfl, iff_of_true herror (Or.inl hheader)⟩

/-- Without a frame nothing is accepted. -/
theorem receive_of_not_accepts (proc : ℤ → Option UInt8)
    (h : ¬ Accepts (b.put (pdata.take FRAME_MAX_LEN))) :
    receive proc b pdata = (b.put (pdata.take FRAME_MAX_LEN), none) := by
  obtain ⟨hbuffer, hnone, -⟩ := rs485ComReadFrame_of_not_accepts h
  have hread : rs485ComReadFrame b pdata =
      (b.put (pdata.take FRAME_MAX_LEN), (rs485ComReadFrame b pdata).2.1, none) := by
    rw [← hbuffer, ← hnone]
  rw [receive, rs485ComRecv, hread]

/-! ### A frame in pieces -/

/-- A frame with its data, the high byte first. -/
def frameOf (cmd : UInt8) (data : List UInt8) : List UInt8 :=
  [FRAME_HEADER, 0, 0, cmd, 0, UInt8.ofNat data.length] ++ data ++ [FRAME_END]

theorem length_frameOf (cmd : UInt8) (data : List UInt8) :
    (frameOf cmd data).length = data.length + 7 := by
  rw [frameOf, List.length_append, List.length_append]
  simp only [List.length_cons, List.length_nil]
  omega

/-- The bytes of a frame that have come. -/
theorem mem_eq_of_got {got data : List UInt8} {cmd : UInt8} (hgot : b.Got got)
    (hfront : got <+: frameOf cmd data) {i : ℕ} (hi : i < got.length) :
    b.mem i = (frameOf cmd data).getD i 0 := by
  obtain ⟨rest, hrest⟩ := hfront
  rw [hgot.mem_eq hi, ← hrest, List.getD_append _ _ _ _ hi]

theorem validDataLen_of_got {got data : List UInt8} {cmd : UInt8} (hgot : b.Got got)
    (hdata : data.length ≤ 4) (hfront : got <+: frameOf cmd data) (hsix : 6 ≤ got.length) :
    validDataLen b = data.length := by
  have hhigh : b.mem 4 = 0 := mem_eq_of_got hgot hfront (by omega)
  have hlow : b.mem 5 = UInt8.ofNat data.length := mem_eq_of_got hgot hfront (by omega)
  have hbyte : (UInt8.ofNat data.length).toNat = data.length :=
    UInt8.toNat_ofNat_of_lt (hdata.trans_lt (by decide))
  rw [validDataLen, if_pos (by rw [hgot.1]; unfold FRAME_DATA_LEN_OFFSET; omega)]
  unfold FRAME_DATA_LEN_OFFSET
  rw [Mem.byteAt, Mem.byteAt, hhigh, hlow, hbyte]
  exact Nat.zero_add _

/-- From the front of a frame, the whole of it is accepted and no part. -/
theorem accepts_iff {got data : List UInt8} {cmd : UInt8} (hgot : b.Got got)
    (hdata : data.length ≤ 4) (hfront : got <+: frameOf cmd data) :
    Accepts b ↔ got = frameOf cmd data := by
  constructor
  · rintro ⟨-, -, hoffset, -⟩
    have hoffset' := hgot.1
    refine hfront.eq_of_length (le_antisymm hfront.length_le ?_)
    rw [length_frameOf, ← validDataLen_of_got hgot hdata hfront (by omega)]
    omega
  · rintro rfl
    have hlen := validDataLen_of_got hgot hdata List.prefix_rfl (by rw [length_frameOf]; omega)
    have hoffset := hgot.1
    rw [length_frameOf] at hoffset
    refine ⟨?_, by omega, by omega, ?_⟩
    · exact mem_eq_of_got hgot List.prefix_rfl (by rw [length_frameOf]; omega)
    · rw [hoffset, mem_eq_of_got hgot List.prefix_rfl (by rw [length_frameOf]; omega), frameOf,
        List.getD_append_right _ _ _ _ (by simp)]
      simp

/-- The data of a whole frame. -/
theorem slice_of_got {data : List UInt8} {cmd : UInt8} (hgot : b.Got (frameOf cmd data)) :
    b.mem.slice 6 data.length = data := by
  have hholds := hgot.2
  rw [frameOf, List.append_assoc, Mem.holds_append, Mem.holds_append] at hholds
  exact hholds.2.1.slice_eq

/-! ### The value -/

/-- The number of bytes of a value. -/
def IsWidth (n : ℕ) : Prop := n = 1 ∨ n = 2 ∨ n = 4

theorem IsWidth.le_four {n : ℕ} (h : IsWidth n) : n ≤ 4 := by
  rcases h with rfl | rfl | rfl <;> decide

/-- The `int` of a value in the host's order: a single byte is signed, two bytes are not. -/
def intValue : List UInt8 → ℤ
  | [x] => Int.bmod x.toNat (2 ^ 8)
  | [x, y] => x.toNat + 256 * y.toNat
  | [x, y, z, w] =>
    Int.bmod (x.toNat + 256 * (y.toNat + 256 * (z.toNat + 256 * w.toNat))) (2 ^ 32)
  | _ => 0

theorem idataOf_reverse {value : List UInt8} (hwidth : IsWidth value.length) :
    idataOf value.reverse = some (intValue value) := by
  match value with
  | [] => simp [IsWidth] at hwidth
  | [x] => rfl
  | [x, y] => rfl
  | [x, y, z] => simp [IsWidth] at hwidth
  | [x, y, z, w] => rfl
  | x :: y :: z :: w :: v :: value => simp [IsWidth] at hwidth

/-- The process has these bytes at an address, and can read them. -/
def HoldsAt (proc : ℤ → Option UInt8) (a : ℤ) (value : List UInt8) : Prop :=
  ∀ (i : ℕ) x, value[i]? = some x → proc (a + i) = some x

theorem readBytes_eq_some_iff (proc : ℤ → Option UInt8) (a : ℤ) (value : List UInt8) :
    readBytes proc a value.length = some value ↔ HoldsAt proc a value := by
  induction value generalizing a with
  | nil => exact iff_of_true rfl fun i x h => by cases h
  | cons y value ih =>
    rw [List.length_cons, readBytes]
    constructor
    · intro h i x hx
      obtain ⟨z, hz, hmap⟩ := Option.bind_eq_some_iff.mp h
      obtain ⟨l, hl, hcons⟩ := Option.map_eq_some_iff.mp hmap
      obtain ⟨rfl, rfl⟩ := List.cons.inj hcons
      rcases i with - | i
      · obtain rfl := Option.some.inj hx
        simpa using hz
      · have hrest := (ih (a + 1)).mp hl i x hx
        rwa [add_assoc, add_comm 1, ← Nat.cast_succ] at hrest
    · intro h
      have hfirst : proc a = some y := by simpa using h 0 y rfl
      have hrest : HoldsAt proc (a + 1) value := by
        intro i x hx
        rw [add_assoc, add_comm 1, ← Nat.cast_succ]
        exact h (i + 1) x hx
      rw [hfirst, Option.bind_some, (ih (a + 1)).mpr hrest]
      rfl

/-- What the sender puts together. -/
theorem rs485AssembleSendData_eq (cmd : UInt8) {value : List UInt8}
    (hwidth : IsWidth value.length) :
    rs485AssembleSendData cmd (some value) value.length = some (frameOf cmd value.reverse) := by
  have hle := hwidth.le_four
  have hmin : min value.length (FRAME_MAX_LEN - FRAME_DATA_LEN_OFFSET) = value.length :=
    min_eq_left (hle.trans (by decide))
  have hhigh : UInt8.ofNat (value.length / 256) = 0 := by
    rw [Nat.div_eq_of_lt (hle.trans_lt (by decide))]
    rfl
  rw [rs485AssembleSendData, hmin, hhigh]
  rw [if_neg (by rcases hwidth with h | h | h <;> omega),
    if_pos (by rcases hwidth with h | h | h <;> omega), List.take_length, frameOf,
    List.length_reverse]

/-! ### Reads -/

/-- A piece of a frame is not cut. -/
theorem take_piece {got piece data : List UInt8} {cmd : UInt8} (hdata : data.length ≤ 4)
    (hfront : got ++ piece <+: frameOf cmd data) : piece.take FRAME_MAX_LEN = piece := by
  have hlen := hfront.length_le
  rw [List.length_append, length_frameOf] at hlen
  exact List.take_of_length_le (by unfold FRAME_MAX_LEN; omega)

/-- A part of a frame is kept. -/
theorem receive_part (proc : ℤ → Option UInt8) {got piece data : List UInt8} {cmd : UInt8}
    (hgot : b.Got got) (hdata : data.length ≤ 4) (hfront : got ++ piece <+: frameOf cmd data)
    (hpart : got ++ piece ≠ frameOf cmd data) :
    (receive proc b piece).2 = none ∧ (receive proc b piece).1.Got (got ++ piece) := by
  have htake := take_piece hdata hfront
  have hnot : ¬ Accepts (b.put (piece.take FRAME_MAX_LEN)) := by
    rw [htake, accepts_iff (hgot.put piece) hdata hfront]
    exact hpart
  rw [receive_of_not_accepts proc hnot, htake]
  exact ⟨rfl, hgot.put piece⟩

/-- The last piece of a frame is accepted, with what the process has at the address that is the
value. -/
theorem receive_whole (proc : ℤ → Option UInt8) {got piece value : List UInt8} {cmd : UInt8}
    (hgot : b.Got got) (hwidth : IsWidth value.length)
    (hwhole : got ++ piece = frameOf cmd value.reverse) :
    (receive proc b piece).2 = some ⟨cmd, readBytes proc (intValue value) value.length⟩ ∧
      (receive proc b piece).1.offset = 0 := by
  have hle : value.reverse.length ≤ 4 := List.length_reverse.trans_le hwidth.le_four
  have hfront : got ++ piece <+: frameOf cmd value.reverse := hwhole ▸ List.prefix_rfl
  have htake := take_piece hle hfront
  have hput := hgot.put piece
  rw [hwhole] at hput
  have haccepts : Accepts (b.put (piece.take FRAME_MAX_LEN)) := by
    rw [htake, accepts_iff hput hle List.prefix_rfl]
  have hread := rs485ComReadFrame_of_accepts haccepts
  have htype : (b.put piece).mem 3 = cmd :=
    mem_eq_of_got hput List.prefix_rfl (by rw [length_frameOf]; omega)
  have hcount := validDataLen_of_got hput hle List.prefix_rfl (by rw [length_frameOf]; omega)
  rw [htake, htype, hcount, slice_of_got hput] at hread
  rw [receive, rs485ComRecv, hread]
  dsimp only
  rw [if_neg (not_lt.mpr hle), idataOf_reverse hwidth, List.length_reverse]
  exact ⟨rfl, rfl⟩

/-- Nothing comes of a read of nothing where the position is zero. -/
theorem receive_nil (proc : ℤ → Option UInt8) (hb : b.offset = 0) :
    (receive proc b []).2 = none ∧ (receive proc b []).1.offset = 0 := by
  have hfront : ([] : List UInt8) ++ [] <+: frameOf 0 [] := List.nil_prefix
  obtain ⟨hnone, hgot⟩ := receive_part proc (Buffer.got_nil hb) (by exact Nat.zero_le 4) hfront
    (List.cons_ne_nil _ _).symm
  exact ⟨hnone, hgot.1⟩

/-- A frame in pieces is accepted once. -/
theorem outputs_frameOf (proc : ℤ → Option UInt8) (hb : b.offset = 0) {value : List UInt8}
    {cmd : UInt8} (hwidth : IsWidth value.length) {pieces : List (List UInt8)}
    (hpieces : pieces.flatten = frameOf cmd value.reverse) :
    outputs (receive proc) b pieces =
      [⟨cmd, readBytes proc (intValue value) value.length⟩] := by
  have hle : value.reverse.length ≤ 4 := List.length_reverse.trans_le hwidth.le_four
  exact outputs_of_frame (receive proc) (fun got b => b.Got got) (fun b => b.offset = 0)
    (fun b got piece hgot hfront hpart => receive_part proc hgot hle hfront hpart)
    (fun b got piece hgot _ hwhole => receive_whole proc hgot hwidth hwhole)
    (fun b hb => receive_nil proc hb) (Buffer.got_nil hb) (List.cons_ne_nil _ _).symm pieces hpieces

/-- Some of its pieces are not. -/
theorem outputs_part (proc : ℤ → Option UInt8) (hb : b.offset = 0) {data : List UInt8}
    {cmd : UInt8} (hdata : data.length ≤ 4) {pieces : List (List UInt8)}
    (hfront : pieces.flatten <+: frameOf cmd data) (hne : pieces.flatten ≠ frameOf cmd data) :
    outputs (receive proc) b pieces = [] := by
  refine outputs_of_parts (receive proc) (fun got b => b.Got got) pieces.flatten
    (fun b got piece hgot hpart => ?_) (Buffer.got_nil hb) pieces
    List.prefix_rfl
  refine receive_part proc hgot hdata (hpart.trans hfront) fun heq => ?_
  rw [heq] at hpart
  exact hne (hfront.eq_of_length (le_antisymm hfront.length_le hpart.length_le))

/-! ### Behind an error -/

/-- Something is in the buffer that is no frame, and what has come since does not make it one: the
second byte of the number may be the first one that came. -/
def Stuck (got : List UInt8) (b : Buffer) : Prop :=
  0 < b.offset ∧ (b.mem 0 ≠ FRAME_HEADER ∨
    4 < validDataLen b ∧ (6 ≤ b.offset ∨ b.offset = 5 ∧ got = []))

theorem not_accepts_of_faulty (h : Faulty b) : ¬ Accepts b := by
  rintro ⟨hheader, hlen, -⟩
  rcases h with hne | hlt
  · exact hne hheader
  · omega

theorem Stuck.faulty {got : List UInt8} (h : Stuck got b) : Faulty b := h.2.imp_right And.left

theorem validDataLen_put (hb : 6 ≤ b.offset) (piece : List UInt8) :
    validDataLen (b.put piece) = validDataLen b := by
  have hput : 5 ≤ (b.put piece).offset := by
    rw [Buffer.put_offset]
    omega
  unfold validDataLen FRAME_DATA_LEN_OFFSET Mem.byteAt
  rw [if_pos hput, if_pos (by omega), Buffer.put_mem_of_lt piece (by omega),
    Buffer.put_mem_of_lt piece (by omega)]

theorem Stuck.put {got piece rest : List UInt8} (h : Stuck got b)
    (hfront : got ++ piece <+: FRAME_HEADER :: rest) : Stuck (got ++ piece) (b.put piece) := by
  obtain ⟨hpos, hfault⟩ := h
  refine ⟨by rw [Buffer.put_offset]; omega, ?_⟩
  rw [Buffer.put_mem_of_lt piece hpos]
  rcases hfault with hheader | ⟨hlen, hsix | ⟨hfive, rfl⟩⟩
  · exact Or.inl hheader
  · refine Or.inr ⟨by rwa [validDataLen_put hsix], Or.inl ?_⟩
    rw [Buffer.put_offset]
    omega
  · cases piece with
    | nil => exact Or.inr ⟨by rwa [Buffer.put_nil], Or.inr ⟨by rwa [Buffer.put_nil], rfl⟩⟩
    | cons x piece =>
      -- the header of the frame comes where the low byte of the number is looked for
      obtain rfl : x = FRAME_HEADER := (List.cons_prefix_cons.mp hfront).1
      have hlow : (b.put (FRAME_HEADER :: piece)).mem 5 = FRAME_HEADER := by
        rw [← hfive]
        exact Buffer.put_mem_add (FRAME_HEADER :: piece) (Nat.succ_pos _)
      have hoffset : (b.put (FRAME_HEADER :: piece)).offset = piece.length + 6 := by
        rw [Buffer.put_offset, hfive, List.length_cons]
        omega
      have hbyte : FRAME_HEADER.toNat = 126 := rfl
      refine Or.inr ⟨?_, Or.inl (by omega)⟩
      unfold validDataLen FRAME_DATA_LEN_OFFSET Mem.byteAt
      rw [if_pos (by omega), hlow]
      omega

/-- Where something else is in the buffer nothing of a frame is accepted. -/
theorem outputs_of_stuck (proc : ℤ → Option UInt8) (hb : Stuck [] b) {data : List UInt8}
    {cmd : UInt8} (hdata : data.length ≤ 4) {pieces : List (List UInt8)}
    (hpieces : pieces.flatten = frameOf cmd data) : outputs (receive proc) b pieces = [] := by
  refine outputs_of_parts (receive proc) Stuck (frameOf cmd data)
    (fun b got piece hstuck hfront => ?_) hb pieces (hpieces ▸ List.prefix_rfl)
  have htake := take_piece hdata hfront
  have hput := hstuck.put hfront
  have hnot : ¬ Accepts (b.put (piece.take FRAME_MAX_LEN)) := by
    rw [htake]
    exact not_accepts_of_faulty hput.faulty
  rw [receive_of_not_accepts proc hnot, htake]
  exact ⟨rfl, hput⟩

theorem five_le_of_validDataLen_pos (h : 0 < validDataLen b) : 5 ≤ b.offset := by
  unfold validDataLen at h
  split_ifs at h with hfive
  · exact hfive
  · exact absurd h (lt_irrefl 0)

/-- After an error the position is zero, or the buffer is stuck. -/
theorem stuck_of_error (proc : ℤ → Option UInt8) (b : Buffer) {pdata : List UInt8}
    (herror : (rs485ComReadFrame b pdata).2.1 < 0) :
    (receive proc b pdata).1.offset = 0 ∨ Stuck [] (receive proc b pdata).1 := by
  have hnot : ¬ Accepts (b.put (pdata.take FRAME_MAX_LEN)) := by
    intro haccepts
    rw [rs485ComReadFrame_of_accepts haccepts] at herror
    dsimp only at herror
    omega
  obtain ⟨-, -, hfault⟩ := rs485ComReadFrame_of_not_accepts hnot
  rw [receive_of_not_accepts proc hnot]
  rcases Nat.eq_zero_or_pos (b.put (pdata.take FRAME_MAX_LEN)).offset with hzero | hpos
  · exact Or.inl hzero
  · refine Or.inr ⟨hpos, (hfault.mp herror).imp_right fun hlen => ⟨hlen, ?_⟩⟩
    have hfive := five_le_of_validDataLen_pos (b := b.put (pdata.take FRAME_MAX_LEN))
      (Nat.zero_lt_of_lt hlen)
    rcases hfive.eq_or_lt with heq | hlt
    · exact Or.inr ⟨heq.symm, rfl⟩
    · exact Or.inl hlt

/-! ### The bounds of the buffer -/

/-- A byte of the buffer that a read writes, or looks at: the header, all that has come and the
number when its first byte is there, and the end byte and the frame when the position is as far. -/
def Touches (b : Buffer) (pdata : List UInt8) (i : ℕ) : Prop :=
  let b' := b.put (pdata.take FRAME_MAX_LEN)
  (b.offset ≤ i ∧ i < b'.offset) ∨ i = 0 ∨
    b'.mem 0 = FRAME_HEADER ∧ 5 ≤ b'.offset ∧ (i < b'.offset ∨ i = 4 ∨ i = 5) ∨
    b'.mem 0 = FRAME_HEADER ∧ validDataLen b' ≤ 4 ∧ 7 + validDataLen b' ≤ b'.offset ∧
      (i = b'.offset - 1 ∨ b'.mem (b'.offset - 1) = FRAME_END ∧ i < 7 + validDataLen b')

/-- A read writes and looks inside the buffer only. -/
def TouchesInside (b : Buffer) (pdata : List UInt8) : Prop :=
  ∀ i, Touches b pdata i → i < FRAME_MAX_LEN

/-- There is room for what a read puts into the buffer. -/
def HasRoom (b : Buffer) (pdata : List UInt8) : Prop :=
  b.offset + min pdata.length FRAME_MAX_LEN ≤ FRAME_MAX_LEN

theorem offset_put_take (b : Buffer) (pdata : List UInt8) :
    (b.put (pdata.take FRAME_MAX_LEN)).offset = b.offset + min pdata.length FRAME_MAX_LEN := by
  rw [Buffer.put_offset, List.length_take, Nat.min_comm]

/-- Under the bound a read stays inside exactly when there is room. -/
theorem touchesInside_iff (hb : b.offset ≤ FRAME_MAX_LEN) (pdata : List UInt8) :
    TouchesInside b pdata ↔ HasRoom b pdata := by
  have hoffset := offset_put_take b pdata
  have hmax : FRAME_MAX_LEN = 1024 := rfl
  constructor
  · intro h
    by_contra hover
    unfold HasRoom at hover
    have hlast := h (b.offset + min pdata.length FRAME_MAX_LEN - 1)
      (Or.inl ⟨by omega, by omega⟩)
    omega
  · intro hroom i htouch
    unfold HasRoom at hroom
    unfold Touches at htouch
    dsimp only at htouch
    rcases htouch with ⟨-, hi⟩ | rfl | ⟨-, -, hi⟩ | ⟨-, hlen, hframe, hi⟩
    · omega
    · omega
    · omega
    · omega

theorem offset_receive_le (proc : ℤ → Option UInt8) (b : Buffer) (pdata : List UInt8) :
    (rs485ComRecv proc b pdata).1.offset ≤ b.offset + min pdata.length FRAME_MAX_LEN := by
  by_cases h : Accepts (b.put (pdata.take FRAME_MAX_LEN))
  · have hzero : (rs485ComRecv proc b pdata).1.offset = 0 := by
      rw [rs485ComRecv, rs485ComReadFrame_of_accepts h]
      dsimp only
      split_ifs
      · rfl
      · cases idataOf ((b.put (pdata.take FRAME_MAX_LEN)).mem.slice 6
          (validDataLen (b.put (pdata.take FRAME_MAX_LEN)))) with
        | none => rfl
        | some idata => rfl
    omega
  · have hreceive := congrArg (fun r => r.1.offset) (receive_of_not_accepts proc h)
    exact hreceive.trans_le (offset_put_take b pdata).le

/-! ### The runs -/

/-- A frame of the sender is accepted once, after its last piece, where the position is zero, and
brings its value when that is what the process has at the address that the value is. The reads of a
run stay inside the buffer when there is room for each of them. After an error the next frame is
accepted when the position is zero. -/
theorem rs485_frames (proc : ℤ → Option UInt8) (reads : List (List UInt8)) :
    (∀ cmd value pieces, IsWidth value.length →
      rs485AssembleSendData cmd (some value) value.length = some pieces.flatten →
      (after proc reads).offset = 0 →
      (∀ pre, pre <+: pieces → pre.flatten ≠ pieces.flatten →
        outputs (receive proc) (after proc reads) pre = []) ∧
      (outputs (receive proc) (after proc reads) pieces = [⟨cmd, some value⟩] ↔
        HoldsAt proc (intValue value) value)) ∧
    ((∀ pre pdata, pre ++ [pdata] <+: reads → TouchesInside (after proc pre) pdata) ↔
      ∀ pre pdata, pre ++ [pdata] <+: reads → HasRoom (after proc pre) pdata) ∧
    ∀ pdata, (rs485ComReadFrame (after proc reads) pdata).2.1 < 0 →
      ∀ cmd value pieces, IsWidth value.length →
        rs485AssembleSendData cmd (some value) value.length = some pieces.flatten →
        ((∃ data, outputs (receive proc) (after proc (reads ++ [pdata])) pieces = [⟨cmd, data⟩]) ↔
          (after proc (reads ++ [pdata])).offset = 0) := by
  refine ⟨fun cmd value pieces hwidth hpieces hzero => ?_, ?_,
    fun pdata herror cmd value pieces hwidth hpieces => ?_⟩
  · rw [rs485AssembleSendData_eq cmd hwidth, Option.some_inj] at hpieces
    have hle : value.reverse.length ≤ 4 := List.length_reverse.trans_le hwidth.le_four
    refine ⟨fun pre hpre hne => ?_, ?_⟩
    · have hfront : pre.flatten <+: pieces.flatten := by
        obtain ⟨rest, rfl⟩ := hpre
        rw [List.flatten_append]
        exact List.prefix_append _ _
      rw [← hpieces] at hfront hne
      exact outputs_part proc hzero hle hfront hne
    · rw [outputs_frameOf proc hzero hwidth hpieces.symm, ← readBytes_eq_some_iff]
      simp
  · exact forall_steps_iff (P := fun b => b.offset ≤ FRAME_MAX_LEN) (Nat.zero_le _)
      (fun b pdata _ hroom => (offset_receive_le proc b pdata).trans hroom)
      (fun b pdata hb => touchesInside_iff hb pdata) reads
  · have hafter : after proc (reads ++ [pdata]) = (receive proc (after proc reads) pdata).1 := by
      rw [after, List.foldl_append]
      rfl
    rw [rs485AssembleSendData_eq cmd hwidth, Option.some_inj] at hpieces
    have hle : value.reverse.length ≤ 4 := List.length_reverse.trans_le hwidth.le_four
    rw [hafter]
    rcases stuck_of_error proc (after proc reads) herror with hzero | hstuck
    · exact iff_of_true ⟨_, outputs_frameOf proc hzero hwidth hpieces.symm⟩ hzero
    · refine iff_of_false ?_ hstuck.1.ne'
      rintro ⟨data, houtputs⟩
      rw [outputs_of_stuck proc hstuck hle hpieces.symm] at houtputs
      exact absurd houtputs (List.cons_ne_nil _ _).symm

/-- A process that has the bytes of 258 at the address 258. -/
def selfAddressed (a : ℤ) : Option UInt8 := if a = 258 then some 2 else some 1

theorem rs485_frames_inPieces :
    (outputs (receive selfAddressed) (after selfAddressed [])
        [[0x7e, 0, 0, 1, 0], [2, 1], [2, 0x7f]] = [⟨1, some [2, 1]⟩] ↔
      HoldsAt selfAddressed (intValue [2, 1]) [2, 1]) ∧
    ((∃ data, outputs (receive selfAddressed) (after selfAddressed [[0]])
        [[0x7e, 0, 0, 1, 0, 2, 1, 2, 0x7f]] = [⟨1, data⟩]) ↔
      (after selfAddressed [[0]]).offset = 0) :=
  ⟨((rs485_frames selfAddressed []).1 1 [2, 1] [[0x7e, 0, 0, 1, 0], [2, 1], [2, 0x7f]]
      (Or.inr (Or.inl rfl)) (by decide) rfl).2,
    (rs485_frames selfAddressed []).2.2 [0] (by decide) 1 [2, 1]
      [[0x7e, 0, 0, 1, 0, 2, 1, 2, 0x7f]] (Or.inr (Or.inl rfl)) (by decide)⟩

/-- A frame whose value is copied from where nothing can be read, two reads that do not fit, and a
frame behind a byte that is no header. -/
theorem not_rs485_frames :
    outputs (receive fun _ => none) start [frameOf 1 [1]] = [⟨1, none⟩] ∧
      ¬ TouchesInside (after (fun _ => none) [List.replicate 600 0]) (List.replicate 600 0) ∧
      outputs (receive fun _ => none) (after (fun _ => none) [[0]]) [frameOf 1 [1]] = [] := by
  refine ⟨by decide, fun h => ?_, by decide⟩
  exact absurd (h 1199 (Or.inl ⟨by decide +kernel, by decide +kernel⟩)) (by decide)

end M57Card.Device.Rs485
