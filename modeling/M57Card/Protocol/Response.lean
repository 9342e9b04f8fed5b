import M57Card.Protocol.Host

/-!
# Response frames

Every response leaves through `m57_send_resp` (`m57.c`, lines 1449–1510), which the server has as
its `send_error`. It builds a frame around `cl->response`: a command frame with an extended header
that carries the response code, or a data frame without one when the flag `is_keytool_cmd` of the
section is set; sending clears the flag. Codes that are not positive are dropped.

The length field of the header has 16 bits and is stored after the swap. The send buffer is
allocated with that truncated length and the same number of bytes is sent (`RespFrame.bytes`).

## Main definitions

* `RespFrame.bytes`, `m57SendResp`.
* `assambleRespPayload`, `assambleKeytoolResp`, `writeKeytoolHandle`.
* `regGetBoardInfo`, `regGetFpgaInfo` : the payloads of the information commands.

## Main results

* `m57SendResp_of_pos` : a positive code sends exactly one frame.
-/

namespace M57Card.M57

open Net Bytes

/-! ### Sending -/

/-- The bytes handed to `cl->send`: as many as the 16-bit length field says. -/
def RespFrame.bytes (f : RespFrame) : List UInt8 :=
  (f.header.bytes ++ (f.exHeader.map M57ExHeader.bytes).getD [] ++ f.payload).take
    (f.header.len % 65536)

/-- The frame that `m57_send_resp` builds for a response code. -/
def respFrame (isKeytool : Bool) (prio sn code : ℕ) (data : List UInt8) : RespFrame :=
  let type := if isKeytool then M57_DATA_TYPE else M57_CMD_TYPE
  let exhlen := if isKeytool then 0 else EX_HEADER_LEN
  let header := m57SwapSendHeaderElement
    { header := M57_SYNC_HEADER, type := type, prio := prio % 16, number := sn % 256 }
  { header := { header with len := (HEADER_LEN + exhlen + data.length) % 65536 }
    exHeader := if isKeytool then none
      else some { cmd := code % 65536, len := (exhlen + data.length) % 65536 }
    payload := data }

/-- `m57_send_resp`. -/
def m57SendResp (cn : Conn Ctx) (code : ℤ) : Conn Ctx :=
  if code ≤ 0 then
    cn
  else
    let c := cn.proto
    let frame := respFrame c.sect.isKeytoolCmd cn.response.prio c.host.respSn code.toNat
      cn.response.data
    let c := (c.onSect fun s => { s with isKeytoolCmd := false }).emit (.send c.me frame)
    { cn with proto := c.onHost fun h => { h with respSn := (h.respSn + 1) % 256 } }

/-- A positive code sends exactly one frame and clears the key tool flag. -/
theorem m57SendResp_of_pos {code : ℤ} (hcode : 0 < code) (cn : Conn Ctx) :
    m57SendResp cn code =
      { cn with
        proto :=
          { me := cn.proto.me
            sect := { cn.proto.sect with isKeytoolCmd := false }
            host := { cn.proto.host.emit (.send cn.proto.me (respFrame cn.proto.sect.isKeytoolCmd
              cn.response.prio cn.proto.host.respSn code.toNat cn.response.data)) with
              respSn := (cn.proto.host.respSn + 1) % 256 } } } := by
  rw [m57SendResp, if_neg (not_le.mpr hcode)]
  rfl

/-! ### Payloads -/

/-- `_assamble_resp_payload`: the chip id and a status. -/
def assambleRespPayload (chip : ℕ) (ret : ℤ) (cn : Conn Ctx) : Conn Ctx :=
  { cn with response := { cn.response with data := le16 chip ++ le32 (ret % 2 ^ 32).toNat } }

/-- `_reg_get_board_info`: the board information is a constant of the code (`_reg.h`). -/
def regGetBoardInfo : List UInt8 :=
  [0x0f, 0x77, 0xba, 0xf6, 0x45, 0x1a, 0x81, 0x5e, 0x6d, 0xa5, 0x32, 0x9b, 0x52, 0xfa, 0x2d, 0xe3,
   0x05, 0x02, 0xd9, 0xe3, 0x26, 0x9e, 0x28, 0x7f, 0xb0, 0x26, 0x30, 0x46, 0xd4, 0xb1, 0x45, 0x07,
   0x43, 0x62, 0x0b, 0x5c, 0x9d, 0x95, 0xe1, 0x35, 0xc2, 0x9c, 0x7d, 0xde, 0xcb, 0xf9, 0x45, 0x12,
   0x06, 0x5b, 0xe8, 0x11, 0xcc, 0x4f, 0x85, 0x1c, 0x43, 0x23, 0x00, 0x87, 0xf4, 0xaa, 0x09, 0x3b,
   0x2d, 0xae, 0x4e, 0x5f, 0xdd, 0x20, 0x64, 0xcd, 0xbe, 0xc5, 0x25, 0x89, 0x08, 0xfa, 0x4a, 0x82,
   0xc7, 0x0c, 0x2c, 0x2b, 0x6d, 0xbb, 0x3c, 0x91, 0xec, 0xa3, 0xd1, 0x1b, 0x14, 0x8d, 0xbc, 0xc3,
   0x51, 0xaa, 0x58, 0x6b, 0xb5, 0x6d, 0x67, 0xb5, 0xf9, 0x54, 0xd4, 0x24, 0xb9, 0x77, 0x84, 0xce,
   0xb9, 0xda, 0x2f, 0xc2, 0xef, 0x8b, 0x6d, 0x66, 0xd9, 0x99, 0xbc, 0x68, 0x6b, 0x17, 0x85, 0xb7,
   0x53, 0x88, 0xef, 0xaa, 0x53, 0x6f, 0xab, 0xc9, 0x57, 0xf0, 0x33, 0x92, 0x9f, 0xb5, 0xe0, 0xbc,
   0x6f, 0x76, 0x99, 0xfc, 0xe5, 0x1f, 0x6c, 0xf6, 0xb1, 0xda, 0x93, 0x73, 0xc1, 0xe9, 0xf7, 0x15,
   0x4e, 0xf1, 0xe0, 0xdd, 0x89, 0x1e, 0x10, 0x62, 0x94, 0x19, 0x76, 0xa9, 0x68, 0xc7, 0xc1, 0x77,
   0x56, 0x69, 0x23, 0x24, 0x20, 0x7e, 0x3f, 0x6f, 0x67, 0x30, 0x23, 0x5e, 0xb9, 0x12, 0x65, 0x0d,
   0x57, 0x3b, 0x9a, 0x53, 0xea, 0xb3, 0xba, 0xe5, 0x97, 0x4d, 0xb7, 0x3a, 0xff, 0x35, 0x6b, 0x59,
   0x66, 0xe5, 0x70, 0x7f, 0xc3, 0x8e, 0x5a, 0x11, 0xb0, 0xef, 0x0d, 0xb5, 0x44, 0xb5, 0xda, 0x21,
   0xc0, 0x91, 0x40, 0xd5, 0x9e, 0x9a, 0x92, 0x77, 0x1f, 0x58, 0x7b, 0xad, 0xad, 0x4c, 0xf6, 0x81,
   0x3e, 0xb6, 0xda, 0xbf, 0x8b, 0x8f, 0xa9, 0x4c, 0xbc, 0x65, 0x88, 0x5f, 0x88, 0xc9, 0x42, 0x2d,
   0x47, 0x76, 0xc5, 0xde, 0xc3, 0x42, 0x6b, 0xb9, 0xef, 0xad, 0x59, 0x1c, 0x67, 0x09, 0xc4, 0x69,
   0x18, 0xdf, 0xc5, 0x9d, 0x71, 0x56, 0xb6, 0xe5, 0xd4, 0xc0, 0x8f, 0x68, 0xc9, 0x52, 0x11, 0x27,
   0x57, 0x15, 0xdc, 0xc2, 0xf5, 0x1e, 0x97, 0x60, 0xb7, 0x53, 0x51, 0x6d, 0x0b, 0xc2, 0xd7, 0xe7,
   0xd3, 0xa6, 0xe8, 0x5c, 0xf4, 0xfb, 0x2c, 0xac, 0xbd, 0xf1, 0x6a, 0xbc, 0xc4, 0xd8, 0x53, 0x1d]

/-- The path of a key file: `/etc/e2prom/` and the address in hexadecimal. -/
def e2promPath (addr : ℕ) : Path :=
  ['/', 'e', 't', 'c', '/', 'e', '2', 'p', 'r', 'o', 'm', '/'] ++ Nat.toDigits 16 addr

/-- The bytes of a key file, or the board information when there is no such file or it is
empty (`_assamble_keytool_resp`). -/
def keytoolInfo (h : Host) (addr : ℕ) : List UInt8 :=
  match h.files.content (e2promPath addr) with
  | some (b :: bs) => b :: bs
  | _ => regGetBoardInfo

/-- `_assamble_keytool_resp`: an inner data header with the addresses exchanged, eight constant
bytes, the information and an end mark. -/
def assambleKeytoolResp (body : List UInt8) (cn : Conn Ctx) : Conn Ctx :=
  let pheader := readDataFrame body 2
  let info := keytoolInfo cn.proto.host pheader.pyDistAddr
  let hNbyte := info.length + 14 + 8 + 2
  let dataHeader : DataFrame :=
    { pyDistAddr := pheader.pySrcAddr
      pySrcAddr := pheader.pyDistAddr
      distAddr := pheader.distAddr
      len := (hNbyte - 8) % 65536
      type := 0x0202
      srcAddr := pheader.srcAddr
      port := 0x01 }
  { cn with response := { cn.response with
      data := dataHeader.bytes ++ [0x00, 0x00, 0x07, 0x00, 0x00, 0x00, 0x40, 0x01] ++ info ++
        [0xff, 0xff]
      prio := 1 } }

/-- The length that `_write_keytool_handle` stores: the inner length less ten, as a `size_t`. -/
def keytoolPayloadLen (body : List UInt8) : ℕ :=
  let len := (readDataFrame body 2).len
  if 10 ≤ len then len - 10 else 2 ^ 64 + len - 10

/-- `_write_keytool_handle`: the key file is written with the bytes of the body from offset 20
on. What lies past the body is not described here: the file gets the bytes of the slice that are
in the body, and the event has the slice as the code takes it. -/
def writeKeytoolHandle (body : List UInt8) (c : Ctx) : Ctx :=
  let path := e2promPath (readDataFrame body 2).pyDistAddr
  let len := keytoolPayloadLen body
  if len = 0 ∨ c.host.env.e2promOpenFails c.host.now then
    c
  else
    (c.onHost fun h =>
      { h with files := h.files.setContent path ((body.drop 20).take len) }).emit
        (.e2promWrite path 20 len)

/-- `START_CARD_SLOTS_NUM` and the slots that follow it. -/
def cardSlots : List ℕ := [2, 3, 4, 5]

/-- `_reg_get_fpga_info_`: the types and the states of the cards, sixteen bytes each. A card that
reports a state is recorded as present. -/
def regGetFpgaInfo (h : Host) : List UInt8 × Host :=
  let reg := h.env.statusReg h.now 0
  let row (f : StatusReg → ℕ) : List UInt8 :=
    [0, 0] ++ cardSlots.map (fun i => UInt8.ofNat (f (reg i))) ++ List.replicate 10 0
  (row StatusReg.boardType ++ row StatusReg.boardStatus,
    { h with cards := fun i =>
        h.cards i || (decide (i ∈ cardSlots) && decide ((reg i).boardStatus ≠ 0)) }.emit
      (.readReg 0))

end M57Card.M57
