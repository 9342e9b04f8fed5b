import M57Card.Lib.Runs
import M57Card.Protocol.Execute

/-!
# The M57 command server

`m57_parse_header` (`m57.c`, lines 179–292) looks at the unconsumed bytes of a connection. A
command leaves its header to be consumed and its body to be collected. A data frame has to be
complete; it is passed through to the FPGA, unless it comes from the key tool: then the command
code is written into the reserved field of the frame in the receive buffer, and the frame from
that field on is collected as the body of a command.

The server (`net.c`, lines 147–161) has this function, `m57_execute` and `m57_send_resp` as its
callbacks.

## Main definitions

* `m57ParseHeader`, `m57Server`.
* `command` : the effect of a completely received command on the protocol's side.
* `Input`, `Input.effect`, `InputRun` : what frames are to the protocol, and runs of them.
-/

namespace M57Card.M57

open Net Bytes

/-- `m57_parse_header`. -/
def m57ParseHeader (buf : List UInt8) (state : NetTcpState) (req : NetTcpRequest) (c : Ctx) :
    HeaderResult Ctx :=
  let len := buf.length
  let req := { req with dataState := .normal }
  let err (req : NetTcpRequest) : HeaderResult Ctx :=
    ⟨false, len, buf, { req with dataState := .err }, state, c⟩
  let wait (req : NetTcpRequest) : HeaderResult Ctx :=
    ⟨true, len, buf, { req with dataState := .wait }, state, c⟩
  if len < HEADER_LEN then
    wait req
  else if (readHeader buf).header ≠ M57_SYNC_HEADER then
    err req
  else
    let header := m57SwapHeaderElement (readHeader buf)
    let req := { req with prio := header.prio, dataType := header.type }
    if header.type = M57_CMD_TYPE then
      let dataLen : ℤ := (header.len : ℤ) - HEADER_LEN
      if 0 ≤ dataLen then
        ⟨true, HEADER_LEN, buf, { req with contentLength := dataLen.toNat }, .data, c⟩
      else
        err req
    else if header.type = M57_DATA_TYPE then
      if len < header.len then
        wait req
      else
        match m57ParseKeytoolData buf header.len with
        | some code =>
            -- the header is consumed up to the reserved field, which now has the command code
            let headerLen := HEADER_LEN - 2
            let dataLen : ℤ := (header.len : ℤ) - headerLen
            let buf := memcpy buf 6 (le16 code)
            let c := c.onSect fun s => { s with isKeytoolCmd := true }
            let req := { req with dataType := M57_CMD_TYPE, contentLength := dataLen.toNat }
            if 0 ≤ dataLen then
              ⟨true, headerLen, buf, req, .data, c⟩
            else
              ⟨false, headerLen, buf, { req with dataState := .err }, .data, c⟩
        | none =>
            ⟨true, header.len, buf, req, .header,
              c.onHost (m57WriteDataToFpga (buf.take header.len))⟩
    else
      err req

/-- The server of M57 command connections. -/
def m57Server : NetTcpServer Ctx where
  onHeader := m57ParseHeader
  onExecute := m57Execute
  sendError := m57SendResp
  exited c := c.host.exited

/-- The effect of a completely received command, executed and answered as `tcp_post_done` does
it, on the protocol's side of the connection. -/
def command (body : List UInt8) (c : Ctx) : Ctx :=
  let (cn, code) := m57ExecuteCmd body.length body { proto := c }
  if cn.proto.host.exited then
    cn.proto
  else
    (if cn.response.needResp then m57SendResp cn code else cn).proto

/-! ### Inputs -/

/-- What a frame is to the protocol: a command with its body, a read or a write of the key tool
with the bytes behind the command code, or a data frame to be passed through. -/
inductive Input where
  | cmd (body : List UInt8)
  | keyRead (rest : List UInt8)
  | keyWrite (rest : List UInt8)
  | data (frame : List UInt8)
  deriving DecidableEq

namespace Input

/-- The event by which an input shows. -/
def event : Input → Event
  | .cmd body => .execute body
  | .keyRead rest => .execute (le16 CCT_KEY_READ_E2PROM ++ rest)
  | .keyWrite rest => .execute (le16 CCT_KEY_WRITE_E2PROM ++ rest)
  | .data frame => .forward frame

/-- The effect of an input on the protocol's side of the connection; for frames of the key tool
the parser has set the flag before. -/
def effect (i : Input) (c : Ctx) : Ctx :=
  match i with
  | .cmd body => command body c
  | .keyRead rest => command (le16 CCT_KEY_READ_E2PROM ++ rest)
      (c.onSect fun s => { s with isKeytoolCmd := true })
  | .keyWrite rest => command (le16 CCT_KEY_WRITE_E2PROM ++ rest)
      (c.onSect fun s => { s with isKeytoolCmd := true })
  | .data frame => c.onHost (m57WriteDataToFpga frame)

end Input

/-- The inputs of a client one after the other, from the context `c₀` on, each while the process
lives and in a context where `ok` holds. -/
abbrev InputRun (ok : Ctx → Input → Prop) (c₀ : Ctx) : List Input → Ctx → Prop :=
  LabelRun Input.effect (fun c => c.host.exited = false) ok c₀

end M57Card.M57
