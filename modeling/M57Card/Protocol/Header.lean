import M57Card.Lib.Bytes

/-!
# Headers of M57 frames

An M57 frame starts with eight bytes: the sync word `0x5751`, a byte with two nibbles, a serial
number, the length of the whole frame and two reserved bytes (`m57.h`, lines 22–38). The nibble
byte and the serial number are exchanged on the wire; the C code reads the header as a structure
with bit-fields and swaps the two afterwards, with one function for received headers and another
one for headers to be sent (`m57.c`, lines 30–59). A command has an extended header of another
eight bytes at the start of its body.

A data frame carries an inner header (`struct data_frame_t`), by which the frames of the key tool
are told apart from pass-through data (`m57.c`, lines 120–165).

## Main definitions

* `M57Header`, `readHeader`, `M57Header.bytes`, `m57SwapHeaderElement`,
  `m57SwapSendHeaderElement`.
* `M57ExHeader` and `M57ExHeader.bytes`.
* `m57ParseKeytoolData`.

## Main results

* `m57SwapHeaderElement_type`, `m57SwapHeaderElement_prio` : which nibbles the receiver reads.
* `m57ParseKeytoolData_take` : the classification depends on the bytes of the frame only.
-/

namespace M57Card.M57

open Bytes

/-- `M57_SYNC_HEADER`. -/
def M57_SYNC_HEADER : ℕ := 0x5751

/-- `M57_DATA_TYPE`, the type nibble of data frames. -/
def M57_DATA_TYPE : ℕ := 0

/-- `M57_CMD_TYPE`, the type nibble of command frames. -/
def M57_CMD_TYPE : ℕ := 2

/-- `sizeof(struct m57_header_st)`. -/
def HEADER_LEN : ℕ := 8

/-- `sizeof(struct m57_ex_header_cmd_st)`. -/
def EX_HEADER_LEN : ℕ := 8

/-- `struct m57_header_st`. -/
structure M57Header where
  header : ℕ := 0
  prio : ℕ := 0
  type : ℕ := 0
  number : ℕ := 0
  len : ℕ := 0
  resv : ℕ := 0
  deriving DecidableEq

/-- The header structure at the start of a buffer, as `memcpy` fills it: `prio` is the low and
`type` the high nibble of the third byte. -/
def readHeader (buf : List UInt8) : M57Header where
  header := u16 buf 0
  prio := byteAt buf 2 % 16
  type := byteAt buf 2 / 16
  number := byteAt buf 3
  len := u16 buf 4
  resv := u16 buf 6

/-- The eight bytes of a header structure. -/
def M57Header.bytes (h : M57Header) : List UInt8 :=
  le16 h.header ++ [UInt8.ofNat (h.prio % 16 + 16 * (h.type % 16)), UInt8.ofNat h.number] ++
    le16 h.len ++ le16 h.resv

/-- `_m57_swap_header_element`, for received headers; the bit-fields keep four bits. -/
def m57SwapHeaderElement (h : M57Header) : M57Header :=
  { h with
    number := (h.type * 16 + h.prio) % 256
    type := h.number % 16
    prio := h.number / 16 % 16 }

/-- `_m57_swap_send_header_element`, for headers to be sent. -/
def m57SwapSendHeaderElement (h : M57Header) : M57Header :=
  { h with
    number := (h.type + h.prio * 16) % 256
    type := h.number / 16 % 16
    prio := h.number % 16 }

/-- `struct m57_ex_header_cmd_st`; the reserved fields are zero in everything sent. -/
structure M57ExHeader where
  cmd : ℕ
  len : ℕ
  deriving DecidableEq

/-- The eight bytes of an extended header. -/
def M57ExHeader.bytes (h : M57ExHeader) : List UInt8 :=
  le16 h.cmd ++ le16 h.len ++ le16 0 ++ le16 0

/-- The type that the receiver reads from a frame. -/
theorem m57SwapHeaderElement_type (buf : List UInt8) :
    (m57SwapHeaderElement (readHeader buf)).type = byteAt buf 3 % 16 := rfl

/-- The priority that the receiver reads from a frame. -/
theorem m57SwapHeaderElement_prio (buf : List UInt8) :
    (m57SwapHeaderElement (readHeader buf)).prio = byteAt buf 3 / 16 := by
  have h := byteAt_lt buf 3
  change byteAt buf 3 / 16 % 16 = byteAt buf 3 / 16
  omega

/-! ### Frames of the key tool -/

/-- `CCT_KEY_READ_E2PROM`. -/
def CCT_KEY_READ_E2PROM : ℕ := 0x0019

/-- `CCT_KEY_WRITE_E2PROM`. -/
def CCT_KEY_WRITE_E2PROM : ℕ := 0x001a

/-- `struct data_frame_t`, laid over a buffer. -/
structure DataFrame where
  pyDistAddr : ℕ
  pySrcAddr : ℕ
  distAddr : ℕ
  len : ℕ
  type : ℕ
  srcAddr : ℕ
  port : ℕ
  deriving DecidableEq

/-- The inner data header at offset `i` of a buffer. -/
def readDataFrame (b : List UInt8) (i : ℕ) : DataFrame where
  pyDistAddr := u16 b i
  pySrcAddr := u16 b (i + 2)
  distAddr := u16 b (i + 4)
  len := u16 b (i + 6)
  type := u16 b (i + 8)
  srcAddr := u16 b (i + 10)
  port := u16 b (i + 12)

/-- The fourteen bytes of an inner data header. -/
def DataFrame.bytes (d : DataFrame) : List UInt8 :=
  le16 d.pyDistAddr ++ le16 d.pySrcAddr ++ le16 d.distAddr ++ le16 d.len ++ le16 d.type ++
    le16 d.srcAddr ++ le16 d.port

/-- `_m57_parse_keytool_data`: the command code of a key tool frame of length `len` at the start
of `buf`, `none` for any other data frame. The inner header is read before the length is looked
at, but the result depends on it only for lengths that contain it. -/
def m57ParseKeytoolData (buf : List UInt8) (len : ℕ) : Option ℕ :=
  let pdata := readDataFrame buf 8
  if u16 buf 0 ≠ M57_SYNC_HEADER then
    none
  else if pdata.pySrcAddr = 0x00 ∧ (pdata.type = 0x0202 ∨ pdata.type = 0x0102) then
    if len = 26 ∧ pdata.type = 0x0102 ∧ pdata.port = 0x07 ∧ pdata.srcAddr = 0x01 then
      some CCT_KEY_READ_E2PROM
    else if 300 ≤ len ∧ pdata.type = 0x0202 ∧ pdata.port = 0x02 ∧ pdata.srcAddr = 0x01 then
      some CCT_KEY_WRITE_E2PROM
    else
      none
  else
    none

/-- A key tool frame is long enough to contain its inner header. -/
theorem m57ParseKeytoolData_le {buf : List UInt8} {len code : ℕ}
    (h : m57ParseKeytoolData buf len = some code) : 26 ≤ len := by
  unfold m57ParseKeytoolData at h
  dsimp only at h
  split_ifs at h <;> omega

theorem m57ParseKeytoolData_code {buf : List UInt8} {len code : ℕ}
    (h : m57ParseKeytoolData buf len = some code) :
    code = CCT_KEY_READ_E2PROM ∨ code = CCT_KEY_WRITE_E2PROM := by
  unfold m57ParseKeytoolData at h
  dsimp only at h
  split_ifs at h <;> simp_all

/-- The classification depends on the bytes of the frame only. -/
theorem m57ParseKeytoolData_take (buf : List UInt8) (len : ℕ) :
    m57ParseKeytoolData (buf.take len) len = m57ParseKeytoolData buf len := by
  by_cases hlen : 26 ≤ len
  · have hu (i : ℕ) (hi : i < 25) : u16 (buf.take len) i = u16 buf i := u16_take (by omega)
    have hframe : readDataFrame (buf.take len) 8 = readDataFrame buf 8 := by
      simp only [readDataFrame, hu 8 (by omega), hu (8 + 2) (by omega), hu (8 + 4) (by omega),
        hu (8 + 6) (by omega), hu (8 + 8) (by omega), hu (8 + 10) (by omega),
        hu (8 + 12) (by omega)]
    unfold m57ParseKeytoolData
    rw [hframe, hu 0 (by omega)]
  · have hnone (b : List UInt8) : m57ParseKeytoolData b len = none := by
      cases h : m57ParseKeytoolData b len with
      | none => rfl
      | some code => exact absurd (m57ParseKeytoolData_le h) hlen
    rw [hnone, hnone]

end M57Card.M57
