import M57Card.Lib.FileTable
import M57Card.Net.Tcp
import M57Card.Protocol.Header

/-!
# The host of the protocol

What the M57 code reaches outside its own connection: the files and descriptors of the process,
the write channel to the FPGA (`write_xdma_data`), the status registers of the cards, the bitmap
of present cards, the other clients of the server. The answers of the operating system and of the
hardware are an environment `Env`, a function of the moment at which they are asked for; the
moment is the number of events so far, and every question to the environment is followed by an
event, so that an environment can answer any sequence of questions by any sequence of answers.

Every effect that a statement may speak of is an `Event` of the `trace`.

Statistics that the modelled code only writes (packet counters) are left out; the load and link
status of a slot, which other code reads, are events.

## Main definitions

* `Env`, `Event`, `Host`, `TcpSection`, `Ctx`.
* `Host.emit`, `Host.writeXdmaData`, `Host.writeFile`, `Host.closeFile`.
* `ioXdmaIsValidChipid` and the field macros of chip ids.

## Main results

* `newEvents_of_append` : the events of an operation that appends to the trace.
-/

namespace M57Card.M57

open Net

/-- A C string. -/
abbrev Path : Type := List Char

/-- The fields of `STATUS_REG` (`_reg.h`, lines 51–64) that the protocol reads. -/
structure StatusReg where
  c0Load : ℕ := 0
  c1Load : ℕ := 0
  boardType : ℕ := 0
  boardStatus : ℕ := 0
  linkStatus : ℕ := 0

/-- The answers of the operating system and of the hardware at a moment. -/
structure Env where
  /-- `open` of the temporary file fails -/
  openFails : ℕ → Bool
  /-- how many of the given number of bytes `write` stores, `none` for an error -/
  writeStored : ℕ → ℕ → Option ℕ
  /-- the result of writing a non-empty buffer of the given length to the FPGA -/
  writeXdmaData : ℕ → ℕ → ℤ
  /-- `stat` or `fopen` of a file to be loaded fails -/
  loadOpenFails : ℕ → Bool
  /-- `fopen` of a key file for writing fails -/
  e2promOpenFails : ℕ → Bool
  /-- the status registers of a slot, at each attempt to read them -/
  statusReg : ℕ → ℕ → ℕ → StatusReg
  /-- `config_get_link_switch` of a slot is on -/
  linkSwitch : ℕ → Bool

/-- A response frame: the header as sent, the extended header of a command frame, the payload. -/
structure RespFrame where
  header : M57Header
  exHeader : Option M57ExHeader
  payload : List UInt8
  deriving DecidableEq

/-- The observable effects. -/
inductive Event where
  /-- `m57_execute_cmd` runs on a body -/
  | execute (body : List UInt8)
  /-- `_m57_write_data_to_fpga` is called on a data frame -/
  | forward (data : List UInt8)
  /-- `write_xdma_data(0, data, len)` -/
  | xdma (data : List UInt8)
  /-- `open` of a temporary file -/
  | openFile (path : Path) (fd : ℕ)
  /-- bytes stored by `write` through a descriptor -/
  | write (fd : ℕ) (data : List UInt8)
  /-- `_m57_loading_bitfile_to_fpga` is started on a file, with the content it has then -/
  | loadStart (client : ℕ) (path : Path) (content : List UInt8)
  /-- a frame is handed to `cl->send` -/
  | send (client : ℕ) (frame : RespFrame)
  /-- the status registers of a slot are read -/
  | readReg (slot : ℕ)
  /-- `ns_downlink_set_loadbit_result` -/
  | loadbitResult (slot : ℕ) (status : ℤ)
  /-- `ns_downlink_set_link_result` -/
  | linkResult (slot : ℕ) (status : ℤ)
  /-- `config_set_device_status` -/
  | deviceStatus (status : ℤ) (chip : ℕ)
  /-- a key file is written with `len` bytes that start at offset `start` of the body -/
  | e2promWrite (path : Path) (start len : ℕ)
  /-- `EX_XDMA_ENABLE_CMD` for a channel -/
  | xdmaEnable (ch : ℕ)
  deriving DecidableEq

/-- What other clients of a server see of a client: address, port, priority and subscriptions. -/
structure Peer where
  id : ℕ
  addr : ℕ
  port : ℕ
  prio : ℤ := 0
  hash : List ℕ := []

/-- The process and the hardware, as far as the protocol reaches them. -/
structure Host where
  env : Env
  trace : List Event := []
  files : FileTable Path := FileTable.empty
  /-- `cards_status_bmp` -/
  cards : ℕ → Bool := fun _ => false
  /-- the clients of the server, in the order of its list -/
  peers : List Peer := []
  /-- the serial number that `m57_send_resp` keeps in a static variable -/
  respSn : ℕ := 0
  /-- the process has ended -/
  exited : Bool := false

/-- The file that a client is transferring. -/
structure SectionFile where
  path : Path := []
  fd : ℕ := 0
  len : ℕ := 0
  lenOffset : ℕ := 0
  sn : ℤ := 0
  deriving DecidableEq

/-- `struct tcp_section`, less what other clients see of it (`Peer`). -/
structure TcpSection where
  file : SectionFile := {}
  isRunLoadfile : Bool := false
  isLoadfileOk : Bool := false
  chipId : ℕ := 0
  isExitting : Bool := false
  isKeytoolCmd : Bool := false
  deriving DecidableEq

/-- The protocol's side of a connection: who the client is, its section, and the host. -/
structure Ctx where
  me : ℕ
  sect : TcpSection := {}
  host : Host

/-- An environment in which every operation succeeds and the registers read as zero. -/
def Env.reliable : Env where
  openFails _ := false
  writeStored _ n := some n
  writeXdmaData _ n := n
  loadOpenFails _ := false
  e2promOpenFails _ := false
  statusReg _ _ _ := {}
  linkSwitch _ := false

/-- A client that has just connected to a host with the given cards. -/
def Ctx.start (env : Env) (cards : ℕ → Bool) : Ctx := { me := 0, host := { env, cards } }

/-! ### Operations of the host -/

namespace Host

/-- Record an event. -/
def emit (e : Event) (h : Host) : Host := { h with trace := h.trace ++ [e] }

/-- The moment at which the environment is asked. -/
def now (h : Host) : ℕ := h.trace.length

/-- `write_xdma_data(0, data, len)` (`spm_xdma.c`, lines 419–455), with its result. -/
def writeXdmaData (data : List UInt8) (h : Host) : ℤ × Host :=
  (if data = [] then 0 else h.env.writeXdmaData h.now data.length, h.emit (.xdma data))

/-- `write(fd, data, len)`: the number of bytes stored, `-1` when the descriptor is not open or
the environment refuses. -/
def writeFile (fd : ℕ) (data : List UInt8) (h : Host) : ℤ × Host :=
  match h.env.writeStored h.now data.length with
  | none => (-1, h)
  | some k =>
      match h.files.write fd (data.take k) with
      | none => (-1, h)
      | some files =>
          ((data.take k).length, { h with files := files }.emit (.write fd (data.take k)))

/-- `close(fd)`. -/
def closeFile (fd : ℕ) (h : Host) : Host := { h with files := h.files.close fd }

end Host

/-! ### Chip ids -/

/-- `CARD_SLOT_NUM`: the slot of a chip id (`bsp.h`, line 50). -/
def cardSlotNum (chip : ℕ) : ℕ := chip / 256 % 256 % 8

/-- `CARD_CHIP_NUM`: the number of the chip in its slot (`bsp.h`, line 51). -/
def cardChipNum (chip : ℕ) : ℕ := chip % 256 % 4

/-- `io_xdma_is_valid_chipid`: the card of the slot is present (`io.c`, lines 1794–1804). -/
def ioXdmaIsValidChipid (h : Host) (chip : ℕ) : Bool := h.cards (cardSlotNum chip)

/-! ### Traces -/

namespace Ctx

/-- Change the host. -/
def onHost (f : Host → Host) (c : Ctx) : Ctx := { c with host := f c.host }

/-- Record an event. -/
def emit (e : Event) (c : Ctx) : Ctx := { c with host := c.host.emit e }

/-- Change the section. -/
def onSect (f : TcpSection → TcpSection) (c : Ctx) : Ctx := { c with sect := f c.sect }

end Ctx

theorem now_emit (e : Event) (h : Host) : (h.emit e).now = h.now + 1 := by
  rw [Host.now, Host.emit, List.length_append]
  rfl

/-- The events between two moments of a host. -/
def newEvents (before after : Host) : List Event := after.trace.drop before.trace.length

theorem newEvents_of_append {h h' : Host} {es : List Event} (heq : h'.trace = h.trace ++ es) :
    newEvents h h' = es := by
  rw [newEvents, heq, List.drop_left]

end M57Card.M57
