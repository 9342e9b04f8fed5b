import M57Card.Protocol.Effects

/-!
# The phases of a connection

Between two iterations of the receive loops a connection is in one of few phases: idle, with a
body partly collected, inside the collecting loop, or inside that loop after the block of the body
has been overrun. This file classifies the headers that the parser can meet (`headerKind`) and
says what an iteration does in each phase. The statements about whole callbacks and whole
connections are built from these lemmas and do not open the loops again.

## Main definitions

* `HeaderKind`, `headerKind` : what the parser makes of the unconsumed bytes.
* `Collecting`, `Polling`, `Overrun` : the phases with a body.
* `Phased` : the invariant of a connection.

## Main results

* `readIter_wait`, `readIter_err`, `readIter_cmd`, `readIter_keytool`, `readIter_data` : an
  iteration on a header.
* `Polling.take`, `Polling.suspend`, `Polling.finish`, `Polling.overrun` : an iteration on a body.
* `phased_step` : the invariant is kept by every iteration.
-/

namespace M57Card.M57

open Net Bytes StepMachine

/-! ### Headers -/

/-- What the parser makes of the bytes at the start of the buffer. -/
inductive HeaderKind where
  /-- more bytes are needed -/
  | wait
  /-- not a frame -/
  | err
  /-- a command with a body of `n` bytes -/
  | cmd (n : ℕ)
  /-- a frame of the key tool, with the command code and the length of the body made from it -/
  | keytool (code n : ℕ)
  /-- a data frame of `len` bytes to be passed through -/
  | data (len : ℕ)
  deriving DecidableEq

/-- The kind of the header at the start of `buf`. -/
def headerKind (buf : List UInt8) : HeaderKind :=
  if buf.length < HEADER_LEN then .wait
  else if u16 buf 0 ≠ M57_SYNC_HEADER then .err
  else if byteAt buf 3 % 16 = M57_CMD_TYPE then
    if HEADER_LEN ≤ u16 buf 4 then .cmd (u16 buf 4 - HEADER_LEN) else .err
  else if byteAt buf 3 % 16 = M57_DATA_TYPE then
    if buf.length < u16 buf 4 then .wait
    else
      match m57ParseKeytoolData buf (u16 buf 4) with
      | some code => .keytool code (u16 buf 4 - 6)
      | none => .data (u16 buf 4)
  else .err

/-- What each kind says about the bytes. -/
theorem headerKind_spec (buf : List UInt8) :
    match headerKind buf with
    | .wait => buf.length < HEADER_LEN ∨
        byteAt buf 3 % 16 = M57_DATA_TYPE ∧ buf.length < u16 buf 4
    | .err => True
    | .cmd n => HEADER_LEN ≤ buf.length ∧ u16 buf 4 = n + HEADER_LEN
    | .keytool code n => u16 buf 4 ≤ buf.length ∧ 26 ≤ u16 buf 4 ∧ u16 buf 4 = n + 6 ∧
        m57ParseKeytoolData buf (u16 buf 4) = some code
    | .data len => HEADER_LEN ≤ buf.length ∧ len ≤ buf.length ∧ u16 buf 4 = len := by
  unfold headerKind
  split_ifs with hshort hsync hcmd hlen hdata hw
  · exact .inl hshort
  · trivial
  · exact ⟨not_lt.mp hshort, by omega⟩
  · trivial
  · exact .inr ⟨hdata, hw⟩
  · cases hkey : m57ParseKeytoolData buf (u16 buf 4) with
    | none => exact ⟨not_lt.mp hshort, not_lt.mp hw, rfl⟩
    | some code =>
      have hle := m57ParseKeytoolData_le hkey
      exact ⟨not_lt.mp hw, hle, by omega, rfl⟩
  · trivial

/-- The request of an accepted header. -/
def acceptedRequest (buf : List UInt8) (type n : ℕ) (req : NetTcpRequest) : NetTcpRequest :=
  { req with prio := byteAt buf 3 / 16, dataType := type, contentLength := n, dataState := .normal }

theorem m57ParseHeader_eq (buf : List UInt8) (state : NetTcpState) (req : NetTcpRequest) (c : Ctx) :
    match headerKind buf with
    | .wait => ∃ req', req'.dataState = .wait ∧
        m57ParseHeader buf state req c = ⟨true, buf.length, buf, req', state, c⟩
    | .err => ∃ req', m57ParseHeader buf state req c = ⟨false, buf.length, buf, req', state, c⟩
    | .cmd n => m57ParseHeader buf state req c =
        ⟨true, HEADER_LEN, buf, acceptedRequest buf M57_CMD_TYPE n req, .data, c⟩
    | .keytool code n => m57ParseHeader buf state req c =
        ⟨true, 6, memcpy buf 6 (le16 code), acceptedRequest buf M57_CMD_TYPE n req, .data,
          c.onSect fun s => { s with isKeytoolCmd := true }⟩
    | .data len => m57ParseHeader buf state req c =
        ⟨true, len, buf, acceptedRequest buf M57_DATA_TYPE req.contentLength req, .header,
          c.onHost (m57WriteDataToFpga (buf.take len))⟩ := by
  have hprio := m57SwapHeaderElement_prio buf
  have htype := m57SwapHeaderElement_type buf
  have hlen : (m57SwapHeaderElement (readHeader buf)).len = u16 buf 4 := rfl
  have hsync : (readHeader buf).header = u16 buf 0 := rfl
  unfold headerKind m57ParseHeader
  simp only [hprio, htype, hlen, hsync]
  by_cases hshort : buf.length < HEADER_LEN
  · simp only [hshort, if_true]
    exact ⟨_, rfl, rfl⟩
  by_cases hs : u16 buf 0 ≠ M57_SYNC_HEADER
  · simp only [hshort, hs, if_true, if_false, not_false_eq_true, ne_eq]
    exact ⟨_, rfl⟩
  by_cases hcmd : byteAt buf 3 % 16 = M57_CMD_TYPE
  · by_cases hn : HEADER_LEN ≤ u16 buf 4
    · have hnn : (0 : ℤ) ≤ (u16 buf 4 : ℤ) - (HEADER_LEN : ℤ) := by omega
      have hnat : ((u16 buf 4 : ℤ) - (HEADER_LEN : ℤ)).toNat = u16 buf 4 - HEADER_LEN := by omega
      simp only [hshort, hs, hcmd, hn, hnn, hnat, if_true, if_false]
      rfl
    · have hnn : ¬ (0 : ℤ) ≤ (u16 buf 4 : ℤ) - (HEADER_LEN : ℤ) := by omega
      simp only [hshort, hs, hcmd, hn, hnn, if_true, if_false]
      exact ⟨_, rfl⟩
  by_cases hdata : byteAt buf 3 % 16 = M57_DATA_TYPE
  · have hne : ¬ M57_DATA_TYPE = M57_CMD_TYPE := by decide
    by_cases hw : buf.length < u16 buf 4
    · simp only [hshort, hs, hne, hdata, hw, if_true, if_false]
      exact ⟨_, rfl, rfl⟩
    · cases hkey : m57ParseKeytoolData buf (u16 buf 4) with
      | none =>
        simp only [hshort, hs, hne, hdata, hw, if_true, if_false]
        rfl
      | some code =>
        have hle := m57ParseKeytoolData_le hkey
        have hnn : (0 : ℤ) ≤ (u16 buf 4 : ℤ) - ((HEADER_LEN - 2 : ℕ) : ℤ) := by
          unfold HEADER_LEN
          omega
        have hnat : ((u16 buf 4 : ℤ) - ((HEADER_LEN - 2 : ℕ) : ℤ)).toNat = u16 buf 4 - 6 := by
          unfold HEADER_LEN
          omega
        simp only [hshort, hs, hne, hdata, hw, hnn, hnat, if_true, if_false]
        rfl
  · simp only [hshort, hs, hcmd, hdata, if_false]
    exact ⟨_, rfl⟩

/-! ### Phases -/

/-- The body of a command is being collected: `got` is stored and `n` bytes are missing. -/
structure Polling (cl : NetTcpClient Ctx) (got : List UInt8) (n : ℕ) : Prop where
  state : cl.state = .data
  dataType : cl.request.dataType = M57_CMD_TYPE
  contentLength : cl.request.contentLength = got.length + n
  postLen : cl.dispatch.postLen = got.length
  body : cl.dispatch.body.getD [] = got
  response : cl.conn.response = {}
  bound : got.length ≤ MAX_RECEIVE_DATA_LEN

/-- A body is being collected and the collecting loop is not running; the loop will resume with
the `n` bytes that are missing. -/
structure Collecting (cl : NetTcpClient Ctx) (got : List UInt8) (n : ℕ) : Prop
    extends Polling cl got n where
  resume : (if 0 < cl.request.remainLength then cl.request.remainLength
    else cl.request.contentLength) = n

/-- The block of the body has been overrun and the collecting loop still has bytes to store. -/
def Overrun (n : ℕ) (cl : NetTcpClient Ctx) : Prop :=
  n ≠ 0 ∧ cl.us ≠ [] ∧ MAX_RECEIVE_DATA_LEN < cl.dispatch.postLen

/-- The invariant of a connection. -/
def Phased (m : Machine Ctx) : Prop :=
  match m.pc with
  | .read | .ret => m.cl.IsIdle ∨ ∃ got n, Collecting m.cl got n
  | .poll n => (∃ got, Polling m.cl got n) ∨ Overrun n m.cl
  | .exit => True

/-! ### Iterations on a header -/

section ReadIter

variable {cl : NetTcpClient Ctx}

theorem readIter_of_nil (hus : cl.us = []) : readIter m57Server cl = ⟨.ret, cl⟩ := by
  simp only [readIter, hus, if_true]

theorem readIter_of_header (hst : cl.state = .header) (hne : cl.us ≠ []) :
    readIter m57Server cl =
      ⟨if (tcpClientHeaderCb m57Server cl).1 then .read else .ret,
        (tcpClientHeaderCb m57Server cl).2⟩ := by
  simp only [readIter, hne, hst, if_false]

theorem ne_nil_of_headerKind (hk : headerKind cl.us ≠ .wait) : cl.us ≠ [] := by
  rintro hus
  exact hk (by rw [hus]; rfl)

/-- Too few bytes: the callback returns and nothing is consumed. -/
theorem readIter_wait (h : cl.IsIdle) (hk : headerKind cl.us = .wait) :
    ∃ cl', readIter m57Server cl = ⟨.ret, cl'⟩ ∧ cl'.IsIdle ∧ cl'.us = cl.us ∧
      cl'.conn.proto = cl.conn.proto ∧ cl'.copies = cl.copies := by
  by_cases hne : cl.us = []
  · exact ⟨cl, readIter_of_nil hne, h, rfl, rfl, rfl⟩
  have hparse := m57ParseHeader_eq cl.us cl.state cl.request cl.conn.proto
  simp only [hk] at hparse
  obtain ⟨req, hw, hparse⟩ := hparse
  have hcb : tcpClientHeaderCb m57Server cl = (false, tcpClientRequestDone cl) := by
    simp only [tcpClientHeaderCb, m57Server, hparse, hw]
    rfl
  rw [readIter_of_header h.state hne, hcb]
  exact ⟨_, rfl, isIdle_tcpClientRequestDone cl, rfl, rfl, rfl⟩

/-- No frame: all bytes are dropped. -/
theorem readIter_err (h : cl.IsIdle) (hk : headerKind cl.us = .err) :
    ∃ cl', readIter m57Server cl = ⟨.ret, cl'⟩ ∧ cl'.IsIdle ∧ cl'.us = [] ∧
      cl'.conn.proto = cl.conn.proto ∧ cl'.copies = cl.copies := by
  have hparse := m57ParseHeader_eq cl.us cl.state cl.request cl.conn.proto
  simp only [hk] at hparse
  obtain ⟨req, hparse⟩ := hparse
  have hcb : tcpClientHeaderCb m57Server cl =
      (false, tcpClientRequestDone { cl with us := [] }) := by
    simp only [tcpClientHeaderCb, m57Server, hparse, if_true, ustreamConsume, List.drop_length]
    rfl
  rw [readIter_of_header h.state (ne_nil_of_headerKind (by simp [hk])), hcb]
  exact ⟨_, rfl, isIdle_tcpClientRequestDone _, rfl, rfl, rfl⟩

/-- A body is to be collected from the start. -/
theorem IsIdle.collecting (h : cl.IsIdle) (us : List UInt8) (n : ℕ) (proto : Ctx) :
    Collecting { cl with
      us := us
      state := .data
      request := acceptedRequest cl.us M57_CMD_TYPE n cl.request
      conn := { cl.conn with proto := proto } } [] n := by
  refine ⟨⟨rfl, rfl, ?_, ?_, ?_, h.response, Nat.zero_le _⟩, ?_⟩
  · exact (Nat.zero_add n).symm
  · simp only [h.dispatch, List.length_nil]
  · simp only [h.dispatch, Option.getD_none]
  · simp only [acceptedRequest, h.request.2, lt_irrefl, if_false]

/-- A command: its header is consumed and its body is to be collected. -/
theorem readIter_cmd {n : ℕ} (h : cl.IsIdle) (hk : headerKind cl.us = .cmd n) :
    ∃ cl', readIter m57Server cl = ⟨.read, cl'⟩ ∧ Collecting cl' [] n ∧
      cl'.us = cl.us.drop HEADER_LEN ∧ cl'.conn.proto = cl.conn.proto ∧
      cl'.copies = cl.copies := by
  have hparse := m57ParseHeader_eq cl.us cl.state cl.request cl.conn.proto
  simp only [hk] at hparse
  rw [readIter_of_header h.state (ne_nil_of_headerKind (by simp [hk]))]
  refine ⟨_, ?_, IsIdle.collecting h (cl.us.drop HEADER_LEN) n cl.conn.proto, rfl, rfl, rfl⟩
  simp only [tcpClientHeaderCb, m57Server, hparse, acceptedRequest]
  rfl

/-- A frame of the key tool: the command code stands in front of the rest of the frame. -/
theorem readIter_keytool {code n : ℕ} (h : cl.IsIdle) (hk : headerKind cl.us = .keytool code n) :
    ∃ cl', readIter m57Server cl = ⟨.read, cl'⟩ ∧ Collecting cl' [] n ∧
      cl'.us = le16 code ++ cl.us.drop 8 ∧
      cl'.conn.proto = cl.conn.proto.onSect (fun s => { s with isKeytoolCmd := true }) ∧
      cl'.copies = cl.copies := by
  have hparse := m57ParseHeader_eq cl.us cl.state cl.request cl.conn.proto
  have hspec := headerKind_spec cl.us
  simp only [hk] at hparse hspec
  have hdrop : (memcpy cl.us 6 (le16 code)).drop 6 = le16 code ++ cl.us.drop 8 :=
    drop_memcpy _ (by omega)
  rw [readIter_of_header h.state (ne_nil_of_headerKind (by simp [hk]))]
  refine ⟨_, ?_, IsIdle.collecting h (le16 code ++ cl.us.drop 8) n _, rfl, rfl, rfl⟩
  simp only [tcpClientHeaderCb, m57Server, hparse, acceptedRequest]
  simp only [ustreamConsume, hdrop, Bool.true_eq_false, if_true, if_false]
  rfl

/-- A data frame: it is passed through and consumed. -/
theorem readIter_data {len : ℕ} (h : cl.IsIdle) (hk : headerKind cl.us = .data len) :
    ∃ cl', readIter m57Server cl = ⟨.read, cl'⟩ ∧ cl'.IsIdle ∧ cl'.us = cl.us.drop len ∧
      cl'.conn.proto = cl.conn.proto.onHost (m57WriteDataToFpga (cl.us.take len)) ∧
      cl'.copies = cl.copies := by
  have hparse := m57ParseHeader_eq cl.us cl.state cl.request cl.conn.proto
  simp only [hk] at hparse
  rw [readIter_of_header h.state (ne_nil_of_headerKind (by simp [hk]))]
  refine ⟨{ cl with
      us := cl.us.drop len
      state := .header
      request := acceptedRequest cl.us M57_DATA_TYPE cl.request.contentLength cl.request
      conn := { cl.conn with
        proto := cl.conn.proto.onHost (m57WriteDataToFpga (cl.us.take len)) } }, ?_,
    ⟨rfl, h.request, h.dispatch, h.response⟩, rfl, rfl, rfl⟩
  simp only [tcpClientHeaderCb, m57Server, hparse, acceptedRequest]
  rfl

end ReadIter

/-! ### Iterations on a body -/

section Bodies

variable {cl : NetTcpClient Ctx} {got : List UInt8} {n : ℕ}

/-- The collecting loop is entered. -/
theorem Collecting.enter (h : Collecting cl got n) (hne : cl.us ≠ []) :
    ∃ cl', readIter m57Server cl = ⟨.poll n, cl'⟩ ∧ Polling cl' got n ∧ cl'.us = cl.us ∧
      cl'.conn = cl.conn ∧ cl'.copies = cl.copies := by
  have hdone : ¬ NetTcpState.data = .done := by decide
  refine ⟨{ cl with dispatch := { cl.dispatch with body := some got } }, ?_,
    ⟨h.state, h.dataType, h.contentLength, h.postLen, rfl, h.response, h.bound⟩, rfl, rfl, rfl⟩
  simp only [readIter, hne, h.state, pollEnter, h.resume, h.body, hdone, if_false]

/-- The bytes that are there are stored. -/
theorem Polling.take (h : Polling cl got n) (hne : cl.us ≠ []) (hn : n ≠ 0)
    (hfit : got.length + min n cl.us.length ≤ MAX_RECEIVE_DATA_LEN) :
    ∃ cl', pollIter m57Server n cl = ⟨.poll (n - cl.us.length), cl'⟩ ∧
      Polling cl' (got ++ cl.us.take n) (n - cl.us.length) ∧ cl'.us = cl.us.drop n ∧
      cl'.conn = cl.conn ∧ cl'.copies = cl.copies ++ [(got.length, min n cl.us.length)] := by
  have hpos : 0 < cl.us.length := List.length_pos_iff.mpr hne
  have htake : (cl.us.take n).length = min n cl.us.length := List.length_take
  have hle : ¬ MAX_RECEIVE_DATA_LEN < got.length + min n cl.us.length := not_lt.mpr hfit
  have hcopy : 0 < min n cl.us.length := by omega
  have hrest : n - min n cl.us.length = n - cl.us.length := by omega
  refine ⟨{ cl with
      us := cl.us.drop n
      dispatch := { postLen := got.length + min n cl.us.length, body := some (got ++ cl.us.take n) }
      copies := cl.copies ++ [(got.length, min n cl.us.length)] }, ?_, ?_, rfl, rfl, rfl⟩
  · simp only [pollIter, hne, hn, if_false, ne_eq, not_false_eq_true, if_true, tcpLoadData,
      ← List.take_eq_take_min, htake, h.postLen, h.body, hle, hcopy, hrest, memcpy_length_eq,
      ustreamConsume, ← List.drop_eq_drop_min]
  · refine ⟨h.state, h.dataType, ?_, ?_, rfl, h.response, ?_⟩
    · rw [List.length_append, htake]
      change cl.request.contentLength = _
      rw [h.contentLength]
      omega
    · rw [List.length_append, htake]
    · rw [List.length_append, htake]
      exact hfit

/-- No bytes are left: the loop is left and the missing length is kept. -/
theorem Polling.suspend (h : Polling cl got n) (hus : cl.us = []) (hn : n ≠ 0) :
    ∃ cl', pollIter m57Server n cl = ⟨.read, cl'⟩ ∧ Collecting cl' got n ∧ cl'.us = [] ∧
      cl'.conn = cl.conn ∧ cl'.copies = cl.copies := by
  refine ⟨{ cl with request := { cl.request with remainLength := n } }, ?_, ⟨⟨h.state, h.dataType,
    h.contentLength, h.postLen, h.body, h.response, h.bound⟩, ?_⟩, hus, rfl, rfl⟩
  · simp only [pollIter, hus, hn, if_true, ne_eq, not_false_eq_true]
  · exact if_pos (Nat.pos_of_ne_zero hn)

/-- The error path: the bytes are copied behind the end of the block and none is consumed. -/
theorem pollIter_overrun (hne : cl.us ≠ []) (hn : n ≠ 0)
    (hover : MAX_RECEIVE_DATA_LEN < cl.dispatch.postLen + min n cl.us.length) :
    ∃ cl', pollIter m57Server n cl = ⟨.poll n, cl'⟩ ∧ cl'.us = cl.us ∧
      cl'.dispatch.postLen = cl.dispatch.postLen + min n cl.us.length ∧
      cl'.copies = cl.copies ++ [(cl.dispatch.postLen, min n cl.us.length)] := by
  have htake : (cl.us.take n).length = min n cl.us.length := List.length_take
  have hpos : 0 < cl.us.length := List.length_pos_iff.mpr hne
  have hcopy : 0 < min n cl.us.length := by omega
  simp only [pollIter, hne, hn, if_false, ne_eq, not_false_eq_true, if_true, tcpLoadData,
    ← List.take_eq_take_min, htake, hover, hcopy, Nat.sub_zero]
  exact ⟨_, rfl, rfl, rfl, rfl⟩

/-- The body is complete: the command is executed, and unless it ends the process the client is
idle. -/
theorem Polling.finish (h : Polling cl got 0) :
    ∃ cl', pollIter m57Server 0 cl =
        ⟨if (command got cl.conn.proto).host.exited then .exit else .read, cl'⟩ ∧
      cl'.conn.proto = command got cl.conn.proto ∧ cl'.us = cl.us ∧ cl'.copies = cl.copies ∧
      ((command got cl.conn.proto).host.exited = false → cl'.IsIdle) := by
  have hconn : cl.conn = { proto := cl.conn.proto } := by
    rw [← h.response]
  have hdone : cl.state ≠ .done := by
    rw [h.state]
    decide
  have hiter : pollIter m57Server 0 cl = tcpPostDone m57Server cl := by
    simp only [pollIter, ne_eq, not_true_eq_false, if_false, ite_self, pollEnd, hdone,
      not_false_eq_true, and_self, if_true]
  have hexec : m57Server.onExecute cl.request (cl.dispatch.body.getD []) cl.conn =
      m57ExecuteCmd got.length got { proto := cl.conn.proto } := by
    simp only [m57Server, m57Execute, h.dataType, if_true, h.contentLength, Nat.add_zero, h.body,
      ← hconn]
  rw [hiter]
  rcases hr : m57ExecuteCmd got.length got { proto := cl.conn.proto } with ⟨cn, code⟩
  simp only [tcpPostDone, hexec, command, hr]
  simp only [m57Server]
  by_cases hex : cn.proto.host.exited = true
  · simp only [hex, if_true]
    exact ⟨_, rfl, rfl, rfl, rfl, by simp⟩
  · by_cases hresp : cn.response.needResp = true
    · simp only [hex, hresp, if_true, if_false, m57SendResp_exited, Bool.false_eq_true]
      exact ⟨_, rfl, rfl, rfl, rfl, fun _ => isIdle_tcpClientRequestDone _⟩
    · simp only [hex, hresp, if_false, Bool.false_eq_true]
      exact ⟨_, rfl, rfl, rfl, rfl, fun _ => isIdle_tcpClientRequestDone _⟩

end Bodies

/-! ### The invariant -/

theorem phased_tcpClientFresh (c : Ctx) : Phased ⟨.ret, NetTcpClient.fresh c⟩ :=
  .inl (isIdle_fresh c)

theorem Phased.recv {cl : NetTcpClient Ctx} (h : Phased ⟨.ret, cl⟩) (chunk : List UInt8) :
    Phased (recv chunk cl) := by
  rcases h with h | ⟨got, n, h⟩
  · exact .inl ⟨h.state, h.request, h.dispatch, h.response⟩
  · exact .inr ⟨got, n, ⟨h.state, h.dataType, h.contentLength, h.postLen, h.body, h.response,
      h.bound⟩, h.resume⟩

/-- The invariant is kept by every iteration. -/
theorem phased_step {m : Machine Ctx} (h : Phased m) : Phased (step m57Server m) := by
  obtain ⟨pc, cl⟩ := m
  cases pc with
  | ret => exact h
  | exit => exact h
  | read =>
    change Phased (readIter m57Server cl)
    rcases h with h | ⟨got, n, h⟩
    · cases hk : headerKind cl.us with
      | wait =>
        obtain ⟨cl', heq, hidle, -⟩ := readIter_wait h hk
        exact heq ▸ .inl hidle
      | err =>
        obtain ⟨cl', heq, hidle, -⟩ := readIter_err h hk
        exact heq ▸ .inl hidle
      | cmd n =>
        obtain ⟨cl', heq, hcoll, -⟩ := readIter_cmd h hk
        exact heq ▸ .inr ⟨_, _, hcoll⟩
      | keytool code n =>
        obtain ⟨cl', heq, hcoll, -⟩ := readIter_keytool h hk
        exact heq ▸ .inr ⟨_, _, hcoll⟩
      | data len =>
        obtain ⟨cl', heq, hidle, -⟩ := readIter_data h hk
        exact heq ▸ .inl hidle
    · by_cases hus : cl.us = []
      · exact readIter_of_nil hus ▸ .inr ⟨got, n, h⟩
      · obtain ⟨cl', heq, hpoll, -⟩ := h.enter hus
        exact heq ▸ .inl ⟨got, hpoll⟩
  | poll n =>
    change Phased (pollIter m57Server n cl)
    rcases h with ⟨got, h⟩ | ⟨hn, hus, hover⟩
    · by_cases hn : n = 0
      · subst hn
        obtain ⟨cl', heq, -, -, -, hidle⟩ := h.finish
        rw [heq]
        cases hex : (command got cl.conn.proto).host.exited with
        | false => exact .inl (hidle hex)
        | true => trivial
      · by_cases hus : cl.us = []
        · obtain ⟨cl', heq, hcoll, -⟩ := h.suspend hus hn
          exact heq ▸ .inr ⟨got, n, hcoll⟩
        · by_cases hfit : got.length + min n cl.us.length ≤ MAX_RECEIVE_DATA_LEN
          · obtain ⟨cl', heq, hpoll, -⟩ := h.take hus hn hfit
            exact heq ▸ .inl ⟨_, hpoll⟩
          · obtain ⟨cl', heq, hus', hpost, -⟩ := pollIter_overrun hus hn (by rw [h.postLen]; omega)
            exact heq ▸ .inr ⟨hn, hus' ▸ hus, by rw [hpost, h.postLen]; omega⟩
    · obtain ⟨cl', heq, hus', hpost, -⟩ := pollIter_overrun hus hn (by omega)
      exact heq ▸ .inr ⟨hn, hus' ▸ hus, hpost ▸ Nat.lt_add_right _ hover⟩

end M57Card.M57
