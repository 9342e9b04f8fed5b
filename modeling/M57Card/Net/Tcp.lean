import M57Card.Lib.Bytes
import M57Card.Lib.StepMachine

/-!
# The receive side of a command connection

The event loop calls `tcp_client_read_cb` after every read of a client socket (`net_tcp.c`, lines
85–297). The callback takes the unconsumed bytes from the stream buffer and drives a small state
machine: in state `HEADER` the protocol's `on_header` looks at the buffer, in state `DATA` the
body of a request is collected into a block of `MAX_RECEIVE_DATA_LEN` bytes, and a complete body
is given to the protocol's `on_execute`.

The protocol is reached through function pointers of the server, which are the fields of
`NetTcpServer` here. Everything that a protocol keeps for a connection outside the fields of this
file (its section, the host it runs on) is the type `σ`. The M57 server sets no `on_end`
(`net.c`, line 158), so that branch of `tcp_client_poll_data` is not taken.

The two nested loops are one machine with a program counter `Pc`: an iteration of the `do … while`
of `tcp_client_read_cb` (`readIter`), an iteration of the `while(1)` of `tcp_client_poll_data`
(`pollIter`). A loop that does not end is then a run without final state. A protocol may end the
process (`exit(1)`), which stops the machine at `Pc.exit`.

Allocation is assumed to succeed. The copy of `tcp_load_data` is performed here on a list, which
grows where the C block would be overrun; each copy is recorded in `copies`, so that a statement
can say which copies stay inside the block.

## Main definitions

* `NetTcpClient`, `NetTcpServer`.
* `tcpClientHeaderCb`, `tcpLoadData`, `tcpPostDone`, `tcpClientRequestDone`.
* `readIter`, `pollIter`, `step` : the loops.
* `recv` : the start of a callback after a read.
* `ReadAll` : successive reads.

## Main results

* `step_of_isFinal` : the machine stays where a callback has ended.
* `ReadAll.unique` : the reads decide the end.
-/

namespace M57Card.Net

/-- `MAX_RECEIVE_DATA_LEN`: the size of the block a body is collected in. -/
def MAX_RECEIVE_DATA_LEN : ℕ := 4096

/-- `enum net_tcp_state`. -/
inductive NetTcpState where
  | header
  | data
  | done
  | close
  deriving DecidableEq

/-- `enum net_tcp_data_state`. -/
inductive NetTcpDataState where
  | normal
  | err
  | wait
  | noDeal
  deriving DecidableEq

/-- `struct net_tcp_request`; the copy of the header in it is never read. -/
structure NetTcpRequest where
  prio : ℕ := 0
  dataType : ℕ := 0
  contentLength : ℕ := 0
  remainLength : ℕ := 0
  dataState : NetTcpDataState := .normal
  deriving DecidableEq

/-- `struct net_tcp_response`; `response_length` is always the length of `data`. -/
structure NetTcpResponse where
  data : List UInt8 := []
  prio : ℕ := 0
  needResp : Bool := false
  deriving DecidableEq

/-- `struct tcp_dispatch`: the body block, `none` when it is not allocated, and the number of
bytes stored in it. The callbacks of the structure are constant in this file. -/
structure TcpDispatch where
  postLen : ℕ := 0
  body : Option (List UInt8) := none
  deriving DecidableEq

/-- The part of a connection that a protocol changes when it executes a request. -/
structure Conn (σ : Type) where
  response : NetTcpResponse := {}
  proto : σ

/-- What `on_header` leaves behind: its result, the number of bytes it takes, the buffer (which
it may rewrite in place), the request, the state of the client and the protocol's own state. -/
structure HeaderResult (σ : Type) where
  stat : Bool
  headLen : ℕ
  buf : List UInt8
  request : NetTcpRequest
  state : NetTcpState
  proto : σ

/-- `struct net_tcp_server`: the callbacks of the protocol. `exited` tells whether the protocol
has ended the process. -/
structure NetTcpServer (σ : Type) where
  onHeader : List UInt8 → NetTcpState → NetTcpRequest → σ → HeaderResult σ
  onExecute : NetTcpRequest → List UInt8 → Conn σ → Conn σ × ℤ
  sendError : Conn σ → ℤ → Conn σ
  exited : σ → Bool

/-- `struct net_tcp_client`. The field `us` has the unconsumed bytes of the stream, presented in
one piece; `copies` records offset and length of every copy into the body block. -/
structure NetTcpClient (σ : Type) where
  us : List UInt8 := []
  state : NetTcpState := .header
  request : NetTcpRequest := {}
  dispatch : TcpDispatch := {}
  conn : Conn σ
  copies : List (ℕ × ℕ) := []

/-- Where the machine of the two loops stands. -/
inductive Pc where
  /-- at the head of the loop of `tcp_client_read_cb` -/
  | read
  /-- at the head of the loop of `tcp_client_poll_data`, with its local `content_length` -/
  | poll (contentLength : ℕ)
  /-- the callback has returned -/
  | ret
  /-- the process has ended -/
  | exit
  deriving DecidableEq

/-- A callback in progress. -/
structure Machine (σ : Type) where
  pc : Pc
  cl : NetTcpClient σ

variable {σ : Type}

/-- `ustream_consume`. -/
def ustreamConsume (len : ℕ) (cl : NetTcpClient σ) : NetTcpClient σ :=
  { cl with us := cl.us.drop len }

/-- `tcp_client_request_done`: request, response and body are cleared. -/
def tcpClientRequestDone (cl : NetTcpClient σ) : NetTcpClient σ :=
  { cl with
    state := .header
    dispatch := {}
    request := {}
    conn := { cl.conn with response := {} } }

variable (srv : NetTcpServer σ)

/-- `tcp_client_header_cb`, with its result first. -/
def tcpClientHeaderCb (cl : NetTcpClient σ) : Bool × NetTcpClient σ :=
  let len := cl.us.length
  let r := srv.onHeader cl.us cl.state cl.request cl.conn.proto
  let cl := { cl with
    us := r.buf, request := r.request, state := r.state, conn := { cl.conn with proto := r.proto } }
  if r.stat = false then
    (false, tcpClientRequestDone (ustreamConsume len { cl with state := .done }))
  else
    match cl.request.dataState with
    | .wait => (false, tcpClientRequestDone { cl with state := .header })
    | .noDeal => (false, tcpClientRequestDone (ustreamConsume r.headLen { cl with state := .done }))
    | _ => (true, ustreamConsume r.headLen cl)

/-- `tcp_load_data`: the bytes are copied behind the stored ones, and only then is the new length
compared with the size of the block. The result is the number of bytes taken, `0` on the error
path. -/
def tcpLoadData (cl : NetTcpClient σ) (data : List UInt8) : ℕ × NetTcpClient σ :=
  let d := cl.dispatch
  let len := data.length
  let cl := { cl with
    dispatch := { postLen := d.postLen + len
                  body := some (Bytes.memcpy (d.body.getD []) d.postLen data) }
    copies := cl.copies ++ if 0 < len then [(d.postLen, len)] else [] }
  if MAX_RECEIVE_DATA_LEN < cl.dispatch.postLen then
    (0, { cl with conn := srv.sendError cl.conn 413 })
  else
    (len, cl)

/-- `tcp_post_done`: execute the request, answer it when asked to, and clear it. -/
def tcpPostDone (cl : NetTcpClient σ) : Machine σ :=
  let (conn, code) := srv.onExecute cl.request (cl.dispatch.body.getD []) cl.conn
  if srv.exited conn.proto then
    ⟨.exit, { cl with conn := conn }⟩
  else
    let conn := if conn.response.needResp then srv.sendError conn code else conn
    ⟨.read, tcpClientRequestDone { cl with conn := conn }⟩

/-- The end of `tcp_client_poll_data`, after its loop has been left with `content_length`. -/
def pollEnd (contentLength : ℕ) (cl : NetTcpClient σ) : Machine σ :=
  if contentLength = 0 ∧ cl.state ≠ .done then
    tcpPostDone srv cl
  else
    ⟨.read, tcpClientRequestDone cl⟩

/-- The part of `tcp_client_poll_data` before its loop: a body that is being resumed continues
with the remaining length. -/
def pollEnter (cl : NetTcpClient σ) : Machine σ :=
  let contentLength :=
    if 0 < cl.request.remainLength then cl.request.remainLength else cl.request.contentLength
  if cl.state = .done then
    ⟨.read, cl⟩
  else
    ⟨.poll contentLength,
      { cl with dispatch := { cl.dispatch with body := some (cl.dispatch.body.getD []) } }⟩

/-- An iteration of the `while(1)` of `tcp_client_poll_data`. -/
def pollIter (contentLength : ℕ) (cl : NetTcpClient σ) : Machine σ :=
  if cl.us = [] then
    if contentLength ≠ 0 then
      ⟨.read, { cl with request := { cl.request with remainLength := contentLength } }⟩
    else
      pollEnd srv contentLength cl
  else if contentLength ≠ 0 then
    let (curLen, cl) := tcpLoadData srv cl (cl.us.take (min contentLength cl.us.length))
    ⟨.poll (contentLength - curLen), ustreamConsume curLen cl⟩
  else
    pollEnd srv contentLength cl

/-- An iteration of the `do … while` of `tcp_client_read_cb`. -/
def readIter (cl : NetTcpClient σ) : Machine σ :=
  if cl.us = [] then
    ⟨.ret, cl⟩
  else
    match cl.state with
    | .header =>
        let (ok, cl) := tcpClientHeaderCb srv cl
        ⟨if ok then .read else .ret, cl⟩
    | .data => pollEnter cl
    | _ => ⟨.ret, cl⟩

/-- One iteration of the loop the machine is in. -/
def step (m : Machine σ) : Machine σ :=
  match m.pc with
  | .read => readIter srv m.cl
  | .poll contentLength => pollIter srv contentLength m.cl
  | .ret | .exit => m

theorem step_read (cl : NetTcpClient σ) : step srv ⟨.read, cl⟩ = readIter srv cl := rfl

theorem step_poll (n : ℕ) (cl : NetTcpClient σ) : step srv ⟨.poll n, cl⟩ = pollIter srv n cl := rfl

/-- A callback that has ended, by returning or with the process. -/
def Machine.IsFinal (m : Machine σ) : Prop := m.pc = .ret ∨ m.pc = .exit

instance : DecidablePred (Machine.IsFinal (σ := σ)) := fun m =>
  inferInstanceAs (Decidable (m.pc = .ret ∨ m.pc = .exit))

/-- The callback after a read that has appended `chunk` to the unconsumed bytes. -/
def recv (chunk : List UInt8) (cl : NetTcpClient σ) : Machine σ :=
  ⟨.read, { cl with us := cl.us ++ chunk }⟩

/-- The machine stays where a callback has ended. -/
theorem step_of_isFinal {m : Machine σ} (h : m.IsFinal) : step srv m = m := by
  rcases h with h | h <;> simp only [step, h]

/-! ### Successive reads -/

/-- The callbacks after successive reads, started at client `cl`, end in the machine `m`: after
the last read, or in the first callback that ends the process. -/
def ReadAll : List (List UInt8) → NetTcpClient σ → Machine σ → Prop
  | [], cl, m => m = ⟨.ret, cl⟩
  | chunk :: chunks, cl, m => ∃ m', StepMachine.Reaches (step srv) (recv chunk cl) m' ∧
      (m'.pc = .exit ∧ m = m' ∨ m'.pc = .ret ∧ ReadAll chunks m'.cl m)

/-- The reads decide the end. -/
theorem ReadAll.unique {chunks : List (List UInt8)} {cl : NetTcpClient σ} {m₁ m₂ : Machine σ}
    (h₁ : ReadAll srv chunks cl m₁) (h₂ : ReadAll srv chunks cl m₂) : m₁ = m₂ := by
  induction chunks generalizing cl with
  | nil => exact h₁.trans h₂.symm
  | cons chunk chunks ih =>
    obtain ⟨n₁, hr₁, hend₁⟩ := h₁
    obtain ⟨n₂, hr₂, hend₂⟩ := h₂
    have hfin₁ : n₁.IsFinal := hend₁.elim (fun h => .inr h.1) fun h => .inl h.1
    have hfin₂ : n₂.IsFinal := hend₂.elim (fun h => .inr h.1) fun h => .inl h.1
    obtain rfl := hr₁.unique hr₂ (step_of_isFinal srv hfin₁) (step_of_isFinal srv hfin₂)
    rcases hend₁ with ⟨hpc₁, rfl⟩ | ⟨hpc₁, h₁⟩ <;> rcases hend₂ with ⟨hpc₂, rfl⟩ | ⟨hpc₂, h₂⟩
    · rfl
    · simp [hpc₁] at hpc₂
    · simp [hpc₁] at hpc₂
    · exact ih h₁ h₂

/-! ### A client between two requests -/

/-- Between two requests nothing of an earlier one is left. -/
structure NetTcpClient.IsIdle (cl : NetTcpClient σ) : Prop where
  state : cl.state = .header
  request : cl.request.contentLength = 0 ∧ cl.request.remainLength = 0
  dispatch : cl.dispatch = {}
  response : cl.conn.response = {}

theorem isIdle_tcpClientRequestDone (cl : NetTcpClient σ) : (tcpClientRequestDone cl).IsIdle :=
  ⟨rfl, ⟨rfl, rfl⟩, rfl, rfl⟩

/-- A freshly accepted connection. -/
def NetTcpClient.fresh (proto : σ) : NetTcpClient σ := { conn := { proto := proto } }

theorem isIdle_fresh (proto : σ) : (NetTcpClient.fresh proto).IsIdle := ⟨rfl, ⟨rfl, rfl⟩, rfl, rfl⟩

end M57Card.Net
