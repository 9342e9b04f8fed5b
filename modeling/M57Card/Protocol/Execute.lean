import M57Card.Protocol.LoadBitfile
import M57Card.Protocol.Subscribe

/-!
# Execution of commands

`m57_execute_cmd` (`m57.c`, lines 1000–1379) runs one command, whose extended header and payload
are the body collected by the connection. It leaves a response code in `_code`, `-1` for none; a
code that is not negative sets `need_resp`, and `tcp_post_done` then sends the response.

A bitfile arrives as a LOAD command and a sequence of FILE_TRANSFER commands. LOAD sets the
transfer fields of the section before it looks at the chip id. FILE_TRANSFER checks chip id and
serial number, stores the payload through the descriptor of the section (`recvFileOver`) and, when
the transfer is over, goes on to load the file (`loadFileExit`).

## Main definitions

* `CardCmd`, `cardCmd`.
* `createTmpPath`, `executeLoad`.
* `recvFileOver`, `receiveChunk`, `loadFileExit`, `executeFileTransfer`.
* `m57ExecuteCmd`, `m57Execute`.
-/

namespace M57Card.M57

open Net Bytes

/-- The command codes of `card_cmd_type` that have a case in `m57_execute_cmd`. -/
inductive CardCmd where
  | keyReadE2prom
  | keyWriteE2prom
  | beatHart
  | register
  | dataSub
  | dataUnsub
  | listInfo
  | readBoardInfo
  | unload
  | load
  | fileTransfer
  | other
  deriving DecidableEq

/-- The command of a code (`m57.h`, lines 119–164). -/
def cardCmd (code : ℕ) : CardCmd :=
  if code = CCT_KEY_READ_E2PROM then .keyReadE2prom
  else if code = CCT_KEY_WRITE_E2PROM then .keyWriteE2prom
  else if code = 0x0000 then .beatHart
  else if code = 0x0001 then .register
  else if code = 0x0003 then .dataSub
  else if code = 0x0004 then .dataUnsub
  else if code = 0x0016 then .listInfo
  else if code = 0x0012 then .readBoardInfo
  else if code = 0x0007 then .unload
  else if code = 0x0005 then .load
  else if code = 0x0009 then .fileTransfer
  else .other

/-- `CCT_RSP_UNLOAD`. -/
def CCT_RSP_UNLOAD : ℤ := 0x0008
/-- `CCT_RSP_READ_BOARD_INFO`. -/
def CCT_RSP_READ_BOARD_INFO : ℤ := 0x0013
/-- `CCT_RSP_LIST_INFO`. -/
def CCT_RSP_LIST_INFO : ℤ := 0x0017
/-- `M57_PRIO_URGENT`. -/
def M57_PRIO_URGENT : ℕ := 3

/-! ### Information commands and UNLOAD -/

/-- The LIST_INFO command. -/
def executeListInfo (cn : Conn Ctx) : Conn Ctx × ℤ :=
  let (info, h) := regGetFpgaInfo cn.proto.host
  ({ response := { cn.response with data := info, prio := M57_PRIO_URGENT }
     proto := { cn.proto with host := h } }, CCT_RSP_LIST_INFO)

/-- The READ_BOARD_INFO command: chip id and FMC id of the request, a zero status and the board
information. -/
def executeReadBoardInfo (body : List UInt8) (cn : Conn Ctx) : Conn Ctx × ℤ :=
  ({ cn with response := { cn.response with
      data := le16 (u16 body 8) ++ le16 (u16 body 10) ++ le32 0 ++ regGetBoardInfo
      prio := M57_PRIO_URGENT } }, CCT_RSP_READ_BOARD_INFO)

/-- The UNLOAD command. The branch of a valid chip id fills the response and leaves `_code` as it
was. -/
def executeUnload (body : List UInt8) (cn : Conn Ctx) : Conn Ctx × ℤ :=
  let id := u16 body 8
  if ioXdmaIsValidChipid cn.proto.host id = false then
    (assambleRespPayload id (-1) cn, CCT_RSP_UNLOAD)
  else
    let cn := { cn with proto := cn.proto.onHost (m57StartUnloadBitfileFromFpga id) }
    ({ cn with
        response := { cn.response with data := le16 id ++ le32 0, prio := M57_PRIO_URGENT } }, -1)

/-! ### LOAD -/

/-- The path of the temporary file of a chip: `/tmp/.%d.tmp`. -/
def tmpPath (chip : ℕ) : Path :=
  ['/', 't', 'm', 'p', '/', '.'] ++ Nat.toDigits 10 chip ++ ['.', 't', 'm', 'p']

/-- `_create_tmp_path`: the descriptor of the section is closed, whether or not it still is the
section's own, and the path is set from the chip id. -/
def createTmpPath (c : Ctx) : Ctx :=
  let c := if 0 < c.sect.file.fd then c.onHost (Host.closeFile c.sect.file.fd) else c
  c.onSect fun s => { s with file := { s.file with path := tmpPath s.chipId } }

/-- The `open` of the LOAD command; a failure ends the process. -/
def openTmpFile (c : Ctx) : Ctx :=
  if c.host.env.openFails c.host.now then
    c.onHost fun h => { h with exited := true }
  else
    let (fd, files) := c.host.files.create c.sect.file.path
    ((c.onHost fun h => { h with files := files }).emit (.openFile c.sect.file.path fd)).onSect
      fun s => { s with file := { s.file with fd := fd } }

/-- The section after the assignments at the head of the LOAD command. -/
def loadSection (body : List UInt8) (s : TcpSection) : TcpSection :=
  { s with
    chipId := u16 body 8
    file := { s.file with len := u32 body 14, lenOffset := 0, sn := 0 }
    isRunLoadfile := true
    isLoadfileOk := false }

/-- The LOAD command. -/
def executeLoad (body : List UInt8) (cn : Conn Ctx) : Conn Ctx × ℤ :=
  let c := cn.proto.onSect (loadSection body)
  if ioXdmaIsValidChipid c.host (u16 body 8) = false then
    (assambleRespPayload (u16 body 8) (-1) { cn with proto := c }, CCT_RSP_LOAD)
  else
    let c := openTmpFile (createTmpPath c)
    if c.host.exited then
      ({ cn with proto := c }, -1)
    else
      ({ cn with proto := c.onHost (m57StartLoadBitfileToFpga c.sect.chipId) }, -1)

/-! ### FILE_TRANSFER -/

/-- `_recv_file_over`: store the payload and compare the number of bytes received with the length
announced. The result is `0` when the file is over, `-1` on an error and otherwise the length of
the payload. A negative length makes `write` fail. -/
def recvFileOver (file : List UInt8) (fileLen : ℤ) (c : Ctx) : ℤ × Ctx :=
  if 0 < c.sect.file.fd then
    if fileLen < 0 then
      (-1, c)
    else
      let (rc, h) := c.host.writeFile c.sect.file.fd file
      let c := { c with host := h }
      if rc < 0 then
        (-1, c)
      else
        let offset := c.sect.file.lenOffset + fileLen.toNat
        let c := c.onSect fun s => { s with file := { s.file with lenOffset := offset } }
        if offset = c.sect.file.len ∨ c.sect.file.sn = -1 then
          (0, c)
        else if c.sect.file.len < offset then
          (-1, c)
        else
          (fileLen, c)
  else
    (-1, c)

/-- The end of a transfer: the flags, and the descriptor is closed. The section keeps its
number. -/
def closeTransfer (ok : Bool) (c : Ctx) : Ctx :=
  let c := c.onSect fun s => { s with isRunLoadfile := false, isLoadfileOk := ok }
  if 0 < c.sect.file.fd then c.onHost (Host.closeFile c.sect.file.fd) else c

/-- The serial number of the section after a chunk with serial number `sn`. -/
def nextSn (sn : ℤ) (file : SectionFile) : ℤ :=
  if sn = -1 then -1 else if sn = file.sn then file.sn + 1 else file.sn

/-- FILE_TRANSFER while a transfer is running, up to the label `load_file_exit`. -/
def receiveChunk (contentLength : ℕ) (body : List UInt8) (c : Ctx) : Ctx :=
  let sn := i16 (u16 body 10)
  let err := c.sect.chipId ≠ u16 body 8 ∨ (sn ≠ -1 ∧ sn ≠ c.sect.file.sn)
  let c := c.onSect fun s => { s with file := { s.file with sn := nextSn sn s.file } }
  if err then
    c.onSect fun s => { s with isRunLoadfile := false, isLoadfileOk := false }
  else
    let fileLen : ℤ := (contentLength : ℤ) - 12
    let (ret, c) := recvFileOver ((body.drop 12).take fileLen.toNat) fileLen c
    if ret = 0 then closeTransfer true c
    else if ret < 0 then closeTransfer false c
    else c

/-- The failure answer at the end of FILE_TRANSFER. -/
def loadFailed (cn : Conn Ctx) : Conn Ctx × ℤ :=
  let chip := cn.proto.sect.chipId
  let c := (cn.proto.emit (.loadbitResult (cardSlotNum chip) DEVICE_STATUS_LOAD_ERR)).emit
    (.deviceStatus DEVICE_STATUS_LOAD_ERR chip)
  (assambleRespPayload chip M57_CARD_STATUS_LOAD_FAILD { cn with proto := c }, CCT_RSP_LOAD)

/-- FILE_TRANSFER from the label `load_file_exit` on. A load that could not be started is answered
by `_m57_load_bit_over` and then once more through `_code`. -/
def loadFileExit (cn : Conn Ctx) : Conn Ctx × ℤ :=
  let s := cn.proto.sect
  if s.isRunLoadfile = false then
    if s.isLoadfileOk ∧ ioXdmaIsValidChipid cn.proto.host s.chipId then
      let (ok, h) := m57LoadingBitfileToFpga cn.proto.me s.file.path cn.proto.host
      let cn := { cn with proto := { cn.proto with host := h } }
      if h.exited then (cn, -1)
      else if ok then (m57LoadBitOver true cn, -1)
      else loadFailed (m57LoadBitOver false cn)
    else
      loadFailed cn
  else
    let c := (cn.proto.emit (.loadbitResult (cardSlotNum s.chipId) DEVICE_STATUS_LOADING)).emit
      (.deviceStatus DEVICE_STATUS_LOADING s.chipId)
    ({ cn with proto := c }, -1)

/-- The FILE_TRANSFER command. -/
def executeFileTransfer (contentLength : ℕ) (body : List UInt8) (cn : Conn Ctx) : Conn Ctx × ℤ :=
  if cn.proto.sect.isRunLoadfile = false then
    loadFileExit cn
  else
    loadFileExit { cn with proto := receiveChunk contentLength body cn.proto }

/-! ### All commands -/

/-- The `switch` of `m57_execute_cmd`, with `_code`. -/
def executeSwitch (contentLength : ℕ) (body : List UInt8) (cn : Conn Ctx) : Conn Ctx × ℤ :=
  match cardCmd (u16 body 0) with
  | .keyReadE2prom => (assambleKeytoolResp body cn, 1)
  | .keyWriteE2prom => ({ cn with proto := writeKeytoolHandle body cn.proto }, -1)
  | .beatHart => (cn, -1)
  | .register => ({ cn with proto := registerClient body cn.proto }, -1)
  | .dataSub => ({ cn with proto := M57.dataSub body cn.proto }, -1)
  | .dataUnsub => ({ cn with proto := M57.dataUnsub body cn.proto }, -1)
  | .listInfo => executeListInfo cn
  | .readBoardInfo => executeReadBoardInfo body cn
  | .unload => executeUnload body cn
  | .load => executeLoad body cn
  | .fileTransfer => executeFileTransfer contentLength body cn
  | .other => (cn, -1)

/-- `m57_execute_cmd`. -/
def m57ExecuteCmd (contentLength : ℕ) (body : List UInt8) (cn : Conn Ctx) : Conn Ctx × ℤ :=
  let (cn, code) := executeSwitch contentLength body
    { cn with proto := cn.proto.emit (.execute body) }
  (if 0 ≤ code then { cn with response := { cn.response with needResp := true } } else cn, code)

/-- `m57_execute`: requests that are no commands are not executed. -/
def m57Execute (req : NetTcpRequest) (body : List UInt8) (cn : Conn Ctx) : Conn Ctx × ℤ :=
  if req.dataType = M57_CMD_TYPE then m57ExecuteCmd req.contentLength body cn else (cn, 0)

end M57Card.M57
