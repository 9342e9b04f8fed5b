import M57Card.Receive.Phases

/-!
# The block of the body and the receive buffer

A connection is a run of reads and of iterations of the receive loops. The bytes of a body are
copied into a block of `MAX_RECEIVE_DATA_LEN` bytes before their number is compared with the size
of the block (`net_tcp.c`, lines 165–172), and a data frame is waited for even when it is longer
than the receive buffer (`m57.c`, line 242). Neither the length field of a command nor the one of a
data frame is compared with these sizes when the header is accepted. This file shows that the
copies stay inside the block, and that the receive buffer is never full when a callback returns,
in the runs whose headers keep to the sizes.

## Main definitions

* `Run cap ok c` : the machines that a connection meets, with a receive buffer of `cap` bytes and
  every iteration started in a state that satisfies `ok`.
* `BodyFits`, `FrameFits` : the conditions on the header at the start of the buffer.

## Main results

* `run_copies_inside` : copies inside the block.
* `run_buffer_not_full` : room in the receive buffer whenever a callback has returned.
-/

namespace M57Card.M57

open Net Bytes StepMachine

/-- The size of the receive buffer of a connection. -/
def RECV_BUF_LEN : ℕ := 32768

/-- A connection, from its start with protocol side `c` on: reads of at most what the receive
buffer of `cap` bytes has room for, after a callback has returned, and iterations of the loops. -/
inductive Run (cap : ℕ) (ok : Machine Ctx → Prop) (c : Ctx) : Machine Ctx → Prop where
  | start : Run cap ok c ⟨.ret, .fresh c⟩
  | read {cl : NetTcpClient Ctx} (hrun : Run cap ok c ⟨.ret, cl⟩) (chunk : List UInt8)
      (hcap : cl.us.length + chunk.length ≤ cap) : Run cap ok c (recv chunk cl)
  | step {m : Machine Ctx} (hrun : Run cap ok c m) (hok : ok m) : Run cap ok c (step m57Server m)

variable {cap : ℕ} {ok : Machine Ctx → Prop} {c : Ctx} {m : Machine Ctx}

theorem Run.phased (h : Run cap ok c m) : Phased m := by
  induction h with
  | start => exact phased_tcpClientFresh c
  | read _ chunk _ ih => exact ih.recv chunk
  | step _ _ ih => exact phased_step ih

/-- Several iterations of a run. -/
theorem Run.iterate (h : Run cap ok c m) (k : ℕ) (hok : ∀ i < k, ok ((Net.step m57Server)^[i] m)) :
    Run cap ok c ((Net.step m57Server)^[k] m) := by
  induction k with
  | zero => exact h
  | succ k ih =>
    rw [Function.iterate_succ_apply']
    exact (ih fun i hi => hok i (hi.trans (Nat.lt_succ_self k))).step (hok k (Nat.lt_succ_self k))

/-! ### The block of the body -/

/-- The length of the body that a header announces. -/
def HeaderKind.bodyLength : HeaderKind → ℕ
  | .cmd n | .keytool _ n => n
  | _ => 0

/-- A header that is about to be accepted announces a body that fits into the block. -/
def BodyFits (m : Machine Ctx) : Prop :=
  m.pc = .read → m.cl.state = .header → (headerKind m.cl.us).bodyLength ≤ MAX_RECEIVE_DATA_LEN

instance : DecidablePred BodyFits := fun m =>
  inferInstanceAs (Decidable (m.pc = .read → m.cl.state = .header → _ ≤ _))

/-- An event does not execute a command on more bytes than the block has. -/
def ExecutesInside (e : Event) : Prop :=
  ∀ body, e = .execute body → body.length ≤ MAX_RECEIVE_DATA_LEN

theorem executesInside_of_commandKinds {e : Event} (he : OfKind commandKinds e) :
    ExecutesInside e := by
  rintro body rfl
  exact absurd he (by simp [OfKind, Event.kind, commandKinds])

/-- A body that is being collected fits into the block, and so did everything before it. -/
structure Inside (c : Ctx) (m : Machine Ctx) : Prop where
  phase : match m.pc with
    | .read | .ret => m.cl.IsIdle ∨
        ∃ got n, Collecting m.cl got n ∧ got.length + n ≤ MAX_RECEIVE_DATA_LEN
    | .poll n => ∃ got, Polling m.cl got n ∧ got.length + n ≤ MAX_RECEIVE_DATA_LEN
    | .exit => True
  copies : ∀ p ∈ m.cl.copies, p.1 + p.2 ≤ MAX_RECEIVE_DATA_LEN
  executes : Grows ExecutesInside c.host m.cl.conn.proto.host

theorem inside_fresh (c : Ctx) : Inside c ⟨.ret, .fresh c⟩ :=
  ⟨.inl (isIdle_fresh c), by simp [NetTcpClient.fresh], .refl _⟩

theorem Inside.recv {cl : NetTcpClient Ctx} (h : Inside c ⟨.ret, cl⟩) (chunk : List UInt8) :
    Inside c (recv chunk cl) := by
  refine ⟨?_, h.copies, h.executes⟩
  rcases h.phase with hidle | ⟨got, n, hcoll, hfit⟩
  · exact .inl ⟨hidle.state, hidle.request, hidle.dispatch, hidle.response⟩
  · exact .inr ⟨got, n, ⟨⟨hcoll.state, hcoll.dataType, hcoll.contentLength, hcoll.postLen,
      hcoll.body, hcoll.response, hcoll.bound⟩, hcoll.resume⟩, hfit⟩

/-- An iteration on a header that announces a body of the right size. -/
theorem Inside.readIter {cl : NetTcpClient Ctx} (h : Inside c ⟨.read, cl⟩)
    (hok : BodyFits ⟨.read, cl⟩) : Inside c (readIter m57Server cl) := by
  rcases h.phase with hidle | ⟨got, n, hcoll, hfit⟩
  · have hbody := hok rfl hidle.state
    dsimp only at hbody
    cases hk : headerKind cl.us with
    | wait =>
      obtain ⟨cl', heq, hidle', -, hproto, hcopies⟩ := readIter_wait hidle hk
      exact heq ▸ ⟨.inl hidle', hcopies ▸ h.copies, hproto ▸ h.executes⟩
    | err =>
      obtain ⟨cl', heq, hidle', -, hproto, hcopies⟩ := readIter_err hidle hk
      exact heq ▸ ⟨.inl hidle', hcopies ▸ h.copies, hproto ▸ h.executes⟩
    | cmd n =>
      obtain ⟨cl', heq, hcoll, -, hproto, hcopies⟩ := readIter_cmd hidle hk
      rw [hk] at hbody
      refine heq ▸ ⟨.inr ⟨[], n, hcoll, ?_⟩, hcopies ▸ h.copies, hproto ▸ h.executes⟩
      simpa [HeaderKind.bodyLength] using hbody
    | keytool code n =>
      obtain ⟨cl', heq, hcoll, -, hproto, hcopies⟩ := readIter_keytool hidle hk
      rw [hk] at hbody
      refine heq ▸ ⟨.inr ⟨[], n, hcoll, ?_⟩, hcopies ▸ h.copies, hproto ▸ h.executes⟩
      simpa [HeaderKind.bodyLength] using hbody
    | data len =>
      obtain ⟨cl', heq, hidle', -, hproto, hcopies⟩ := readIter_data hidle hk
      refine heq ▸ ⟨.inl hidle', hcopies ▸ h.copies, hproto ▸ h.executes.trans ?_⟩
      exact ⟨[.forward (cl.us.take len), .xdma (padded (cl.us.take len))], by
        simp [Ctx.onHost, m57WriteDataToFpga, Host.writeXdmaData, Host.emit],
        by simp [ExecutesInside]⟩
  · by_cases hus : cl.us = []
    · exact readIter_of_nil hus ▸ ⟨.inr ⟨got, n, hcoll, hfit⟩, h.copies, h.executes⟩
    · obtain ⟨cl', heq, hpoll, -, hconn, hcopies⟩ := hcoll.enter hus
      exact heq ▸ ⟨⟨got, hpoll, hfit⟩, hcopies ▸ h.copies, hconn ▸ h.executes⟩

/-- An iteration on a body. -/
theorem Inside.pollIter {n : ℕ} {cl : NetTcpClient Ctx} (h : Inside c ⟨.poll n, cl⟩) :
    Inside c (pollIter m57Server n cl) := by
  obtain ⟨got, hpoll, hfit⟩ := h.phase
  by_cases hn : n = 0
  · subst hn
    obtain ⟨cl', heq, hproto, -, hcopies, hidle⟩ := hpoll.finish
    rw [heq]
    refine ⟨?_, hcopies ▸ h.copies, ?_⟩
    · cases hex : (command got cl.conn.proto).host.exited with
      | false => exact .inl (hidle hex)
      | true => trivial
    · have hexec : Grows ExecutesInside cl.conn.proto.host
          (cl.conn.proto.host.emit (.execute got)) := by
        refine .emit ?_ _
        rintro body heq
        obtain rfl := Event.execute.inj heq
        exact hpoll.bound
      have hcmd : Grows ExecutesInside _ (command got cl.conn.proto).host :=
        (grows_command got cl.conn.proto).mono fun e => executesInside_of_commandKinds
      change Grows ExecutesInside c.host cl'.conn.proto.host
      rw [hproto]
      exact (h.executes.trans hexec).trans hcmd
  · by_cases hus : cl.us = []
    · obtain ⟨cl', heq, hcoll, -, hconn, hcopies⟩ := hpoll.suspend hus hn
      exact heq ▸ ⟨.inr ⟨got, n, hcoll, hfit⟩, hcopies ▸ h.copies, hconn ▸ h.executes⟩
    · have hroom : got.length + min n cl.us.length ≤ MAX_RECEIVE_DATA_LEN := by omega
      obtain ⟨cl', heq, hpoll', -, hconn, hcopies⟩ := hpoll.take hus hn hroom
      refine heq ▸ ⟨⟨_, hpoll', ?_⟩, ?_, hconn ▸ h.executes⟩
      · rw [List.length_append, List.length_take]
        omega
      · rw [hcopies]
        intro p hp
        rcases List.mem_append.mp hp with hp | hp
        · exact h.copies p hp
        · obtain rfl := List.mem_singleton.mp hp
          exact hroom

theorem Run.inside (h : Run cap BodyFits c m) : Inside c m := by
  induction h with
  | start => exact inside_fresh c
  | read _ chunk _ ih => exact ih.recv chunk
  | @step m _ hok ih =>
    obtain ⟨pc, cl⟩ := m
    cases pc with
    | read => exact ih.readIter hok
    | poll n => exact ih.pollIter
    | ret => exact ih
    | exit => exact ih

/-- **The copies stay inside the block.** In every run in which each accepted header announces a
body that fits into the block, every copy of `tcp_load_data` ends inside the block and every
command is executed on a body that fits. -/
theorem run_copies_inside (h : Run cap BodyFits c m) :
    (∀ p ∈ m.cl.copies, p.1 + p.2 ≤ MAX_RECEIVE_DATA_LEN) ∧
      ∀ body, .execute body ∈ newEvents c.host m.cl.conn.proto.host →
        body.length ≤ MAX_RECEIVE_DATA_LEN :=
  ⟨h.inside.copies, fun body hbody => h.inside.executes.newEvents _ hbody body rfl⟩

/-- A heartbeat in one read, with its five iterations. -/
theorem run_copies_inside_heartbeat :
    let m := (step m57Server)^[5] (recv [0x51, 0x57, 0, 2, 16, 0, 0, 0, 0, 0, 8, 0, 0, 0, 0, 0]
      (.fresh (.start .reliable fun _ => false)))
    (∀ p ∈ m.cl.copies, p.1 + p.2 ≤ MAX_RECEIVE_DATA_LEN) ∧
      ∀ body, .execute body ∈ newEvents (Ctx.start .reliable fun _ => false).host
        m.cl.conn.proto.host → body.length ≤ MAX_RECEIVE_DATA_LEN := by
  have hstart : Run 16 BodyFits (.start .reliable fun _ => false)
      ⟨.ret, .fresh (.start .reliable fun _ => false)⟩ := .start
  exact run_copies_inside ((hstart.read _ (by decide)).iterate 5 (by decide))

/-- A header that announces more than the block has, with enough bytes behind it, leads to a copy
past the end of the block. -/
theorem exists_copy_outside_of_cmd (cl : NetTcpClient Ctx) {n : ℕ}
    (h : Run cap (fun _ => True) c ⟨.read, cl⟩) (hidle : cl.IsIdle)
    (hk : headerKind cl.us = .cmd n)
    (hover : MAX_RECEIVE_DATA_LEN < min n (cl.us.length - HEADER_LEN)) :
    ∃ m, Run cap (fun _ => True) c m ∧ ∃ p ∈ m.cl.copies, MAX_RECEIVE_DATA_LEN < p.1 + p.2 := by
  obtain ⟨cl₁, hread, hcoll, hus₁, -⟩ := readIter_cmd hidle hk
  have hlen : cl₁.us.length = cl.us.length - HEADER_LEN := by rw [hus₁, List.length_drop]
  have hne : cl₁.us ≠ [] := by
    intro hnil
    rw [hnil, List.length_nil] at hlen
    omega
  obtain ⟨cl₂, henter, hpoll, hus₂, -⟩ := hcoll.enter hne
  have hpost : cl₂.dispatch.postLen = 0 := hpoll.postLen
  rw [← hlen, ← hus₂] at hover
  obtain ⟨cl₃, hiter, -, -, hcopies⟩ :=
    pollIter_overrun (hus₂ ▸ hne) (n := n) (by omega) (by omega)
  have hrun₁ : Run cap (fun _ => True) c ⟨.read, cl₁⟩ := hread ▸ h.step trivial
  have hrun₂ : Run cap (fun _ => True) c ⟨.poll n, cl₂⟩ := henter ▸ hrun₁.step trivial
  have hrun₃ : Run cap (fun _ => True) c ⟨.poll n, cl₃⟩ := hiter ▸ hrun₂.step trivial
  refine ⟨_, hrun₃, (cl₂.dispatch.postLen, min n cl₂.us.length), ?_, ?_⟩
  · rw [hcopies]
    exact List.mem_append_right _ List.mem_cons_self
  · dsimp only
    omega

/-- The header of a command with a body of 8184 bytes, and 4097 bytes of the body. -/
def overlongCommand : List UInt8 := [0x51, 0x57, 0, 2, 0, 0x20, 0, 0] ++ List.replicate 4097 0

/-- The copy for an over-long command leaves the block. -/
theorem exists_copy_outside :
    ∃ m, Run RECV_BUF_LEN (fun _ => True) (.start .reliable fun _ => false) m ∧
      ∃ p ∈ m.cl.copies, MAX_RECEIVE_DATA_LEN < p.1 + p.2 := by
  have hlen : overlongCommand.length = 4105 := by
    rw [overlongCommand, List.length_append, List.length_replicate]
    rfl
  have hrun : Run RECV_BUF_LEN (fun _ => True) (.start .reliable fun _ => false)
      (recv overlongCommand (.fresh (.start .reliable fun _ => false))) := by
    refine .read .start overlongCommand ?_
    rw [hlen]
    decide
  have hk : headerKind overlongCommand = .cmd 8184 := by
    have hshort : ¬ overlongCommand.length < HEADER_LEN := by
      rw [hlen]
      decide
    rw [headerKind, if_neg hshort]
    rfl
  have hus : (recv overlongCommand (.fresh (Ctx.start .reliable fun _ => false))).cl.us =
      overlongCommand := List.nil_append _
  have hover : MAX_RECEIVE_DATA_LEN < min 8184
      ((recv overlongCommand (.fresh (Ctx.start .reliable fun _ => false))).cl.us.length -
        HEADER_LEN) := by
    rw [hus, hlen]
    decide
  exact exists_copy_outside_of_cmd (recv overlongCommand (.fresh _)).cl hrun
    ⟨rfl, ⟨rfl, rfl⟩, rfl, rfl⟩ (hus ▸ hk) hover

/-! ### The receive buffer -/

/-- A data frame that is about to be looked at fits into the receive buffer. -/
def FrameFits (m : Machine Ctx) : Prop :=
  m.pc = .read → m.cl.state = .header → HEADER_LEN ≤ m.cl.us.length →
    byteAt m.cl.us 3 % 16 = M57_DATA_TYPE → u16 m.cl.us 4 ≤ RECV_BUF_LEN

instance : DecidablePred FrameFits := fun m =>
  inferInstanceAs (Decidable (m.pc = .read → m.cl.state = .header → HEADER_LEN ≤ m.cl.us.length →
    _ = _ → _ ≤ _))

/-- The number of bytes that the parser waits for. -/
def awaitedLength (us : List UInt8) : ℕ := if us.length < HEADER_LEN then HEADER_LEN else u16 us 4

/-- There is room in the receive buffer for the frame that is waited for. -/
def HasRoom (us : List UInt8) : Prop :=
  us.length < awaitedLength us ∧ awaitedLength us ≤ RECV_BUF_LEN

theorem hasRoom_nil : HasRoom [] := by
  unfold HasRoom
  decide

/-- A callback that returns leaves room. -/
theorem hasRoom_readIter {cl : NetTcpClient Ctx} (h : Phased ⟨.read, cl⟩)
    (hok : FrameFits ⟨.read, cl⟩) (hret : (readIter m57Server cl).pc = .ret) :
    HasRoom (readIter m57Server cl).cl.us := by
  rcases h with hidle | ⟨got, n, hcoll⟩
  · cases hk : headerKind cl.us with
    | wait =>
      obtain ⟨cl₁, heq, -, hus, -⟩ := readIter_wait hidle hk
      have hspec := headerKind_spec cl.us
      simp only [hk] at hspec
      rw [heq, hus, HasRoom, awaitedLength]
      split_ifs with hshort
      · exact ⟨hshort, by decide⟩
      · obtain ⟨htype, hlt⟩ := hspec.resolve_left hshort
        exact ⟨hlt, hok rfl hidle.state (not_lt.mp hshort) htype⟩
    | err =>
      obtain ⟨cl₁, heq, -, hus, -⟩ := readIter_err hidle hk
      rw [heq, hus]
      exact hasRoom_nil
    | cmd n =>
      obtain ⟨cl₁, heq, -⟩ := readIter_cmd hidle hk
      exact absurd hret (by simp [heq])
    | keytool code n =>
      obtain ⟨cl₁, heq, -⟩ := readIter_keytool hidle hk
      exact absurd hret (by simp [heq])
    | data len =>
      obtain ⟨cl₁, heq, -⟩ := readIter_data hidle hk
      exact absurd hret (by simp [heq])
  · by_cases hus : cl.us = []
    · rw [readIter_of_nil hus, hus]
      exact hasRoom_nil
    · obtain ⟨cl₁, heq, -⟩ := hcoll.enter hus
      exact absurd hret (by simp [heq])

/-- An iteration on a body does not end the callback. -/
theorem pollIter_pc_ne_ret {n : ℕ} {cl : NetTcpClient Ctx} (h : Phased ⟨.poll n, cl⟩) :
    (pollIter m57Server n cl).pc ≠ .ret := by
  rcases h with ⟨got, hpoll⟩ | ⟨hn, hus, hover⟩
  · by_cases hn : n = 0
    · subst hn
      obtain ⟨cl', heq, -⟩ := hpoll.finish
      rw [heq]
      dsimp only
      split_ifs <;> simp
    · by_cases hus : cl.us = []
      · obtain ⟨cl', heq, -⟩ := hpoll.suspend hus hn
        rw [heq]
        simp
      · by_cases hfit : got.length + min n cl.us.length ≤ MAX_RECEIVE_DATA_LEN
        · obtain ⟨cl', heq, -⟩ := hpoll.take hus hn hfit
          rw [heq]
          simp
        · obtain ⟨cl', heq, -⟩ := pollIter_overrun hus hn (by rw [hpoll.postLen]; omega)
          rw [heq]
          simp
  · obtain ⟨cl', heq, -⟩ := pollIter_overrun hus hn (Nat.lt_add_right _ hover)
    rw [heq]
    simp

/-- **The receive buffer is never full when a callback has returned.** In every run in which each
data frame that is looked at fits into the receive buffer, a callback that has returned has left
room for the rest of the frame that is waited for. -/
theorem run_buffer_not_full (h : Run RECV_BUF_LEN FrameFits c m) (hret : m.pc = .ret) :
    m.cl.us.length < RECV_BUF_LEN ∧ awaitedLength m.cl.us ≤ RECV_BUF_LEN := by
  suffices hroom : HasRoom m.cl.us from ⟨hroom.1.trans_le hroom.2, hroom.2⟩
  induction h with
  | start => exact hasRoom_nil
  | read _ _ _ _ => exact absurd hret (by simp [recv])
  | @step m hrun hok ih =>
    have hphase := hrun.phased
    obtain ⟨pc, cl⟩ := m
    cases pc with
    | read => exact hasRoom_readIter hphase hok hret
    | poll n => exact absurd hret (pollIter_pc_ne_ret hphase)
    | ret => exact ih rfl
    | exit => exact ih hret

/-- Seven bytes of a data frame, in one read. -/
theorem run_buffer_not_full_short_header :
    let m := step m57Server (recv [0x51, 0x57, 0, 0, 0xff, 0x7f, 0]
      (.fresh (.start .reliable fun _ => false)))
    m.pc = .ret ∧ m.cl.us.length < RECV_BUF_LEN ∧ awaitedLength m.cl.us ≤ RECV_BUF_LEN := by
  have hstart : Run RECV_BUF_LEN FrameFits (.start .reliable fun _ => false)
      ⟨.ret, .fresh (.start .reliable fun _ => false)⟩ := .start
  exact ⟨rfl, run_buffer_not_full ((hstart.read _ (by decide)).step (by decide)) rfl⟩

/-- The header of a data frame of 65535 bytes, and as much of it as the receive buffer takes. -/
def overlongDataFrame : List UInt8 :=
  [0x51, 0x57, 0, 0, 0xff, 0xff, 0, 0] ++ List.replicate 32760 0

/-- A data frame longer than the receive buffer fills it, and nothing is consumed. -/
theorem exists_buffer_full :
    ∃ m, Run RECV_BUF_LEN (fun _ => True) (.start .reliable fun _ => false) m ∧ m.pc = .ret ∧
      m.cl.us.length = RECV_BUF_LEN := by
  have hlen : overlongDataFrame.length = 32768 := by
    rw [overlongDataFrame, List.length_append, List.length_replicate]
    rfl
  have hus : (recv overlongDataFrame (.fresh (Ctx.start .reliable fun _ => false))).cl.us =
      overlongDataFrame := List.nil_append _
  have hrun : Run RECV_BUF_LEN (fun _ => True) (.start .reliable fun _ => false)
      (recv overlongDataFrame (.fresh (.start .reliable fun _ => false))) := by
    refine .read .start overlongDataFrame ?_
    rw [hlen]
    decide
  have hk : headerKind overlongDataFrame = .wait := by
    have hshort : ¬ overlongDataFrame.length < HEADER_LEN := by
      rw [hlen]
      decide
    have hwait : overlongDataFrame.length < u16 overlongDataFrame 4 := by
      rw [hlen]
      decide
    have hsync : u16 overlongDataFrame 0 = M57_SYNC_HEADER := by decide
    have htype : byteAt overlongDataFrame 3 % 16 = M57_DATA_TYPE := by decide
    have hne : ¬ M57_DATA_TYPE = M57_CMD_TYPE := by decide
    simp only [headerKind, hshort, hsync, htype, hwait, hne, if_true, if_false, ne_eq,
      not_true_eq_false]
  obtain ⟨cl', heq, -, hus', -⟩ := readIter_wait ⟨rfl, ⟨rfl, rfl⟩, rfl, rfl⟩ (hus ▸ hk)
  have hrun' : Run RECV_BUF_LEN (fun _ => True) (.start .reliable fun _ => false) ⟨.ret, cl'⟩ := by
    rw [← heq]
    exact hrun.step trivial
  refine ⟨_, hrun', rfl, ?_⟩
  rw [hus', hus, hlen]
  rfl

end M57Card.M57
