import M57Card.Protocol.Response

/-!
# Loading a bitfile into the FPGA

A load writes through one channel: a start command of sixteen bytes when the LOAD command arrives,
the blocks of the file when it has been transferred, and a stop command (`m57.c`, lines 303–530 and
671–749). The build has `LOAD_FILE_ASYN` off (`bsp.h`, line 5): the file is written while the
event loop waits, and `_m57_load_bit_over` then looks at the result registers and answers the
client. With `LOAD_FILE_ASYN` the same function runs when the loading thread exits.

The loading function divides by the size of the file to print its progress; for an empty file this
ends the process.

## Main definitions

* `m57AssambleLoadfileCmd`, `m57StartLoadBitfileToFpga`, `m57StopLoadBitfileToFpga`,
  `m57StartUnloadBitfileFromFpga`.
* `loadingLoop`, `m57LoadingBitfileToFpga`.
* `loadBitVerdict`, `m57LoadBitOver`.
* `m57WriteDataToFpga` : a pass-through data frame.
-/

namespace M57Card.M57

open Net Bytes

/-- `_m57_assamble_loadfile_cmd`. -/
def m57AssambleLoadfileCmd (chip cmd : ℕ) : List UInt8 :=
  [0x7e, 0xe7, 0xaa, 0x55] ++ List.replicate 5 0 ++ le16 chip ++ [UInt8.ofNat cmd] ++
    [0x7e, 0xe7, 0xaa, 0x55]

/-- `_m57_start_load_bitfile_to_fpga`; its result is not used. -/
def m57StartLoadBitfileToFpga (chip : ℕ) (h : Host) : Host :=
  (h.writeXdmaData (m57AssambleLoadfileCmd chip 0x00)).2

/-- `_m57_stop_load_bitfile_to_fpga`: whether the command was written completely. -/
def m57StopLoadBitfileToFpga (chip : ℕ) (h : Host) : Bool × Host :=
  let (nwrite, h) := h.writeXdmaData (m57AssambleLoadfileCmd chip 0x01)
  (decide (nwrite = 16), h)

/-- `_align_4byte`: the number of bytes missing to a multiple of four. -/
def align4byte (rc : ℕ) : ℕ := if rc % 4 = 0 then 0 else 4 - rc % 4

/-- A buffer with zeros up to a multiple of four bytes. -/
def padded (data : List UInt8) : List UInt8 :=
  data ++ List.replicate (align4byte data.length) 0

/-- `_m57_write_data_to_fpga`: a data frame is passed through as it is. -/
def m57WriteDataToFpga (data : List UInt8) (h : Host) : Host :=
  ((h.emit (.forward data)).writeXdmaData (padded data)).2

/-! ### The file -/

/-- The `while(rc)` of `_m57_loading_bitfile_to_fpga_thread` on the bytes that are still to be
read; `totalWrite` and `reminder` are its accumulators. The first argument bounds the number of
blocks. -/
def loadingLoop : ℕ → List UInt8 → ℤ → ℕ → Host → ℤ × ℕ × Host
  | 0, _, totalWrite, reminder, h => (totalWrite, reminder, h)
  | k + 1, rest, totalWrite, reminder, h =>
      let block := rest.take 4096
      if block = [] then
        (totalWrite, reminder, h)
      else
        let reminder := reminder + align4byte block.length
        let (nwrite, h) := h.writeXdmaData (padded block)
        if nwrite ≤ 0 then
          (totalWrite, reminder, h)
        else
          loadingLoop k (rest.drop 4096) (totalWrite + nwrite) reminder h

/-- `_m57_loading_bitfile_to_fpga` on a file: `false` when the file cannot be opened. The size of
an empty file is used as a divisor, which ends the process. -/
def m57LoadingBitfileToFpga (client : ℕ) (path : Path) (h : Host) : Bool × Host :=
  match h.files.content path with
  | none => (false, h.emit (.loadStart client path []))
  | some file =>
      let fails := h.env.loadOpenFails h.now
      let h := h.emit (.loadStart client path file)
      if fails then
        (false, h)
      else if file = [] then
        (false, { h with exited := true })
      else
        (true, (loadingLoop file.length file 0 0 h).2.2)

/-! ### The result -/

/-- `DEVICE_STATUS_*` (`net_statistics.h`, lines 51–61). -/
def DEVICE_STATUS_LOAD_OK : ℤ := 3
def DEVICE_STATUS_WAIT_LOAD : ℤ := 4
def DEVICE_STATUS_LINK_OK : ℤ := 5
def DEVICE_STATUS_LOADING : ℤ := 2
def DEVICE_STATUS_LOAD_ERR : ℤ := -2
def DEVICE_STATUS_LINK_ERR : ℤ := -3

/-- `M57_CARD_STATUS_*` (`m57.h`, lines 166–168). -/
def M57_CARD_STATUS_LOAD_FAILD : ℤ := -5
def M57_CARD_STATUS_LINK_FAILD : ℤ := -7
def M57_CARD_STATUS_OK : ℤ := 0

/-- `CCT_RSP_LOAD`. -/
def CCT_RSP_LOAD : ℤ := 0x0006

/-- The chip of a chip id as the register functions of `_reg.h` number it; `none` when it is out
of range. -/
def regChip (id : ℕ) : Option ℕ :=
  let chip := if 0 < id % 256 then id % 256 - 1 else id % 256
  if 2 ≤ chip then none else some chip

/-- The slot of a chip id as the register functions of `_reg.h` number it. -/
def regSlot (id : ℕ) : ℕ := id / 256 % 16

/-- The load register of a chip. -/
def StatusReg.load (r : StatusReg) (chip : ℕ) : ℕ := if chip = 0 then r.c0Load else r.c1Load

/-- The nine attempts that the register functions make at most. -/
def attempts : List ℕ := List.range 9

/-- `_reg_get_load_result`: some attempt reads `1`. -/
def regGetLoadResult (id : ℕ) (h : Host) : Bool × Host :=
  match regChip id with
  | none => (false, h)
  | some chip =>
      (attempts.any fun k => (h.env.statusReg h.now k (regSlot id)).load chip == 1,
        h.emit (.readReg (regSlot id)))

/-- `_reg_get_unload_result`: some attempt reads something else than `1`. -/
def regGetUnloadResult (id : ℕ) (h : Host) : Bool × Host :=
  match regChip id with
  | none => (false, h)
  | some chip =>
      (attempts.any fun k => (h.env.statusReg h.now k (regSlot id)).load chip != 1,
        h.emit (.readReg (regSlot id)))

/-- `_reg_get_link_result`: some attempt reads `1`. -/
def regGetLinkResult (id : ℕ) (h : Host) : Bool × Host :=
  match regChip id with
  | none => (false, h)
  | some _ =>
      (attempts.any fun k => (h.env.statusReg h.now k (regSlot id)).linkStatus == 1,
        h.emit (.readReg (regSlot id)))

/-- `_m57_start_unload_bitfile_from_fpga`; its result is not used. -/
def m57StartUnloadBitfileFromFpga (chip : ℕ) (h : Host) : Host :=
  let (nwrite, h) := h.writeXdmaData (m57AssambleLoadfileCmd chip 0x02)
  let (unloaded, h) := regGetUnloadResult chip h
  if unloaded ∧ nwrite = 16 then
    h.emit (.loadbitResult (cardSlotNum chip) DEVICE_STATUS_WAIT_LOAD)
  else
    h

/-- The link check of `_m57_load_bit_over`. -/
def linkVerdict (chip : ℕ) (h : Host) : ℤ × Host :=
  let (linked, h) := regGetLinkResult chip h
  if linked then
    (M57_CARD_STATUS_OK, h.emit (.linkResult (cardSlotNum chip) DEVICE_STATUS_LINK_OK))
  else
    (M57_CARD_STATUS_LINK_FAILD,
      (h.emit (.linkResult (cardSlotNum chip) DEVICE_STATUS_LINK_ERR)).emit
        (.deviceStatus DEVICE_STATUS_LINK_ERR chip))

/-- `_m57_load_bit_over` up to its answer: the status of the load. A stop command that is not
written completely leaves the status at `M57_CARD_STATUS_OK`. -/
def loadBitVerdict (result : Bool) (chip : ℕ) (h : Host) : ℤ × Host :=
  if result = false then
    (M57_CARD_STATUS_LOAD_FAILD,
      (h.emit (.loadbitResult (cardSlotNum chip) DEVICE_STATUS_LOAD_ERR)).emit
        (.deviceStatus DEVICE_STATUS_LOAD_ERR chip))
  else
    let (stopped, h) := m57StopLoadBitfileToFpga chip h
    if stopped = false then
      (M57_CARD_STATUS_OK, h)
    else
      let (loaded, h) := regGetLoadResult chip h
      if loaded = false then
        (M57_CARD_STATUS_LOAD_FAILD,
          (h.emit (.loadbitResult (cardSlotNum chip) DEVICE_STATUS_LOAD_ERR)).emit
            (.deviceStatus DEVICE_STATUS_LOAD_ERR chip))
      else
        let (ret, h) :=
          if h.env.linkSwitch (cardSlotNum chip) ∧ cardChipNum chip = 2 then linkVerdict chip h
          else (M57_CARD_STATUS_OK, h)
        if ret = M57_CARD_STATUS_OK then
          (ret, (h.emit (.loadbitResult (cardSlotNum chip) DEVICE_STATUS_LOAD_OK)).emit
            (.deviceStatus DEVICE_STATUS_LOAD_OK chip))
        else
          (ret, h)

/-- `_m57_load_bit_over`: the client is answered directly, not through `tcp_post_done`. -/
def m57LoadBitOver (result : Bool) (cn : Conn Ctx) : Conn Ctx :=
  if cn.proto.sect.isExitting then
    cn
  else
    let chip := cn.proto.sect.chipId
    let (ret, h) := loadBitVerdict result chip cn.proto.host
    m57SendResp (assambleRespPayload chip ret { cn with proto := { cn.proto with host := h } })
      CCT_RSP_LOAD

end M57Card.M57
