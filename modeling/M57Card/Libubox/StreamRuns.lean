import M57Card.Lib.Runs
import M57Card.Libubox.StreamWriting

/-!
# A stream is two queues

The servers leave the number and the size of the buffers at their defaults, so that what is read
goes through one buffer of 32768 bytes and what is written through as many as it takes. Over any run
of the operations on a stream, by its user and by the event loop in any order, both chains are
queues: the bytes come out as they have gone in. The chain that is read has a bound, and the stream
is blocked only when it is reached.

## Main definitions

* `StreamOp`, `StreamRun.step` : the operations, and a stream with the bytes that they have moved.
* `StreamRun.start` : a stream that `ustream_fd_init` has set up.

## Main results

* `read_of_run` : what is read is what has been consumed and what is shown.
* `blocked_of_run` : a stream is blocked by itself only when a full buffer waits.
* `written_of_run` : what is sent and what waits is what has been accepted.
-/

namespace M57Card.Libubox

/-- An operation on a stream. The arguments other than `len`, `buflen`, `set`, `data` and `text` are
what the descriptor and the allocator give. -/
inductive StreamOp where
  /-- an iteration of the loop of `ustream_fd_read_pending` -/
  | fdRead (res : ReadResult) (malloc : Option Mem)
  /-- `ustream_consume` -/
  | consume (len : ℕ)
  /-- `ustream_read` -/
  | read (buflen : ℕ)
  /-- `ustream_set_read_blocked` -/
  | setReadBlocked (set : Bool)
  /-- `ustream_write` -/
  | write (fd : List WriteResult) (malloc : ℕ → Option Mem) (data : List UInt8)
  /-- `ustream_vprintf` -/
  | vprintf (fd : List WriteResult) (malloc : ℕ → Option Mem) (room : Option Mem) (tmp : Bool)
      (text : List UInt8)
  /-- `ustream_write_pending` -/
  | writePending (fd : ℕ → List WriteResult)
  /-- `__ustream_fd_poll` with an error of the descriptor -/
  | fdError
  /-- `ustream_state_change_cb` -/
  | stateChange

/-- A stream with what has been read from the descriptor, what the user has taken, what it has
written as far as the calls have accepted it, and what has been sent to the descriptor. -/
structure StreamRun where
  s : Ustream
  fed : List UInt8 := []
  taken : List UInt8 := []
  accepted : List UInt8 := []
  sent : List UInt8 := []

namespace StreamRun

/-- A call that writes `data`. -/
def written (st : StreamRun) (data : List UInt8) (res : Written) : StreamRun :=
  { st with
    s := res.s
    accepted := st.accepted ++ res.accepted data
    sent := st.sent ++ res.sent }

/-- An operation; it has no result when it ends the process. -/
def step (st : StreamRun) : StreamOp → Option StreamRun
  | .fdRead res malloc => (ustreamFdReadIter res malloc st.s).map fun p =>
      { st with s := p.1, fed := st.fed ++ p.2 }
  | .consume len => (ustreamConsume len st.s).map fun s =>
      { st with s := s, taken := st.taken ++ (ustreamGetReadBuf st.s).take len }
  | .read buflen => (ustreamRead (buflen + 1) buflen st.s).map fun p =>
      { st with s := p.1, taken := st.taken ++ p.2 }
  | .setReadBlocked set => some { st with s := { st.s with blockedUser := set } }
  | .write fd malloc data => some (st.written data (ustreamWrite fd malloc data st.s))
  | .vprintf fd malloc room tmp text =>
      some (st.written text (ustreamVprintf fd malloc room tmp text st.s))
  | .writePending fd => (ustreamWritePending fd st.s).map fun p =>
      { st with s := p.1, sent := st.sent ++ p.2 }
  | .fdError => some { st with s := { st.s with writeError := true } }
  | .stateChange => some { st with s := ustreamStateChangeCb st.s }

/-- A stream of a connection as `ustream_fd_init` leaves it: the fields that the servers do not set
are zero before. -/
def start (stringData : Bool) : StreamRun where
  s := ustreamInitDefaults
    { r := { minBuffers := 0, maxBuffers := 0, bufferLen := 0 }
      w := { minBuffers := 0, maxBuffers := 0, bufferLen := 0 }
      stringData := stringData }

/-! ### The invariant -/

/-- The invariant of a run. -/
structure Ok (stringData : Bool) (st : StreamRun) : Prop where
  read : st.s.ReadOk
  stringData : st.s.stringData = stringData
  write : st.s.WriteOk
  rMax : st.s.r.maxBuffers = 1
  rLen : st.s.r.bufferLen = 32768
  wMax : st.s.w.maxBuffers = -1
  fed : st.fed = st.taken ++ st.s.r.bytes
  alive : st.s.writeError = false → st.sent ++ st.s.w.bytes = st.accepted
  sent : st.sent <+: st.accepted

variable {stringData : Bool} {st : StreamRun}

theorem ok_start (stringData : Bool) : (start stringData).Ok stringData where
  stringData := rfl
  read := ⟨⟨nofun, nofun, nofun, fun _ => rfl, rfl, fun _ => Int.zero_le_ofNat 1,
    Nat.succ_pos 32767⟩, rfl⟩
  write _ := ⟨⟨nofun, nofun, nofun, fun _ => rfl, rfl,
    fun h => absurd (show (0 : ℤ) < -1 from h) (by decide), Nat.succ_pos 32767⟩, rfl⟩
  rMax := rfl
  rLen := rfl
  wMax := rfl
  fed := rfl
  alive _ := rfl
  sent := List.nil_prefix

/-- An operation that reads or consumes. -/
theorem Ok.of_read (h : st.Ok stringData) {s' : Ustream} (hread : s'.ReadOk)
    (hsame : SameButRead st.s s') {fed taken : List UInt8} (hfed : fed = taken ++ s'.r.bytes) :
    ({ st with s := s', fed := fed, taken := taken } : StreamRun).Ok stringData where
  read := hread
  stringData := hsame.stringData.trans h.stringData
  write herr := by
    rw [hsame.w]
    exact h.write (hsame.writeError.symm.trans herr)
  rMax := hsame.maxBuffers.trans h.rMax
  rLen := hsame.bufferLen.trans h.rLen
  wMax := (congrArg _ hsame.w).trans h.wMax
  fed := hfed
  alive herr := by
    rw [hsame.w]
    exact h.alive (hsame.writeError.symm.trans herr)
  sent := h.sent

/-- An operation that writes. -/
theorem Ok.of_write (h : st.Ok stringData) {s' : Ustream} {accepted sent : List UInt8}
    (hstep : WriteStep st.s s' accepted sent) :
    ({ st with s := s', accepted := st.accepted ++ accepted, sent := st.sent ++ sent } :
      StreamRun).Ok stringData := by
  obtain ⟨hr, hstring, -⟩ := hstep.read
  have hread := h.read
  refine ⟨⟨?_, ?_⟩, hstring.trans h.stringData, hstep.ok, ?_, ?_,
    hstep.maxBuffers.trans h.wMax, ?_, fun herr => ?_, ?_⟩
  · rw [hr, hstring]
    exact hread.ok
  · rw [hr]
    exact hread.dataBytes
  · rw [hr]
    exact h.rMax
  · rw [hr]
    exact h.rLen
  · rw [hr]
    exact h.fed
  · have herr₀ : st.s.writeError = false := by
      by_contra hne
      have hover := (hstep.silent (Bool.eq_true_of_not_eq_false hne)).1
      exact absurd (herr.symm.trans hover) nofun
    rw [List.append_assoc, hstep.alive herr, ← List.append_assoc, h.alive herr₀]
  · cases herr₀ : st.s.writeError with
    | true =>
      obtain ⟨-, rfl, rfl⟩ := hstep.silent herr₀
      rw [List.append_nil, List.append_nil]
      exact h.sent
    | false =>
      rw [← h.alive herr₀, List.append_assoc]
      refine (List.prefix_append_right_inj _).mpr ?_
      cases herr : s'.writeError with
      | true => exact hstep.error herr₀ herr
      | false => exact ⟨s'.w.bytes, hstep.alive herr⟩

/-- **Every operation keeps the invariant**, and only consuming more than there is ends the
process. -/
theorem Ok.step (h : st.Ok stringData) (op : StreamOp) :
    (∃ st', st.step op = some st' ∧ st'.Ok stringData) ∨
      ∃ len, op = .consume len ∧ st.s.r.bytes.length < len ∧ st.step op = none := by
  have hfed := h.fed
  cases op with
  | fdRead res malloc =>
    obtain ⟨s', src, hres, hiter⟩ := ustreamFdReadIter_spec h.read res malloc
    refine .inl ⟨_, congrArg (Option.map _) hres, h.of_read hiter.ok hiter.same ?_⟩
    dsimp only
    rw [hfed, hiter.bytes, List.append_assoc]
  | consume len =>
    rcases lt_or_ge st.s.r.bytes.length len with hlt | hle
    · refine .inr ⟨len, rfl, hlt, ?_⟩
      rw [StreamRun.step, ustreamConsume_eq_none h.read hlt]
      rfl
    · obtain ⟨s', hs', hok, hbytes, hsame, -⟩ := ustreamConsume_spec h.read hle
      refine .inl ⟨_, congrArg (Option.map _) hs', h.of_read hok hsame ?_⟩
      rw [hfed, ustreamGetReadBuf_eq h.read h.rMax, hbytes, List.append_assoc,
        List.take_append_drop]
  | read buflen =>
    obtain ⟨s', hs', hok, hbytes, hsame, -⟩ :=
      ustreamRead_spec h.read (buflen + 1) (Nat.lt_succ_self buflen)
    refine .inl ⟨_, congrArg (Option.map _) hs', h.of_read hok hsame ?_⟩
    rw [hfed, hbytes, List.append_assoc, List.take_append_drop]
  | setReadBlocked set =>
    have hread : ({ st.s with blockedUser := set } : Ustream).ReadOk :=
      ⟨h.read.ok, h.read.dataBytes⟩
    exact .inl ⟨_, rfl, hread, h.stringData, h.write, h.rMax, h.rLen, h.wMax, hfed, h.alive,
      h.sent⟩
  | write fd malloc data => exact .inl ⟨_, rfl, h.of_write (ustreamWrite_spec fd h.write).step⟩
  | vprintf fd malloc room tmp text =>
    exact .inl ⟨_, rfl, h.of_write (ustreamVprintf_spec fd room tmp h.write).1⟩
  | writePending fd =>
    obtain ⟨s', sent, hs', hstep⟩ := ustreamWritePending_spec fd h.write
    have hok := h.of_write hstep
    rw [List.append_nil] at hok
    exact .inl ⟨_, congrArg (Option.map _) hs', hok⟩
  | fdError =>
    exact .inl ⟨_, rfl, ⟨h.read.ok, h.read.dataBytes⟩, h.stringData, nofun, h.rMax, h.rLen, h.wMax,
      hfed, nofun, h.sent⟩
  | stateChange =>
    have hok := h.of_write (ustreamStateChangeCb_spec h.write)
    rw [List.append_nil, List.append_nil] at hok
    exact .inl ⟨_, rfl, hok⟩

theorem Ok.step_some (h : st.Ok stringData) {op : StreamOp} {st' : StreamRun}
    (hstep : st.step op = some st') : st'.Ok stringData := by
  rcases h.step op with ⟨st₁, hst₁, hok⟩ | ⟨len, -, -, hnone⟩
  · obtain rfl := Option.some.inj (hst₁.symm.trans hstep)
    exact hok
  · exact absurd (hnone.symm.trans hstep) nofun

theorem ok_of_run {ops : List StreamOp}
    (h : ops.foldlM StreamRun.step (start stringData) = some st) : st.Ok stringData :=
  invariant_of_foldlM (C := fun _ => True) (fun _ _ _ hs _ hstep => hs.step_some hstep)
    (fun _ _ => trivial) (ok_start stringData) h

/-! ### Reading -/

/-- **What is read is a queue**: over every run, what has come from the descriptor is what the user
has taken and then what the stream shows, which is all that it holds. It is counted, is no longer
than a buffer and, in a stream of strings, has a zero behind it. Nothing ends the process but
consuming more than is shown. -/
theorem read_of_run {ops : List StreamOp}
    (h : ops.foldlM StreamRun.step (start stringData) = some st) :
    st.fed = st.taken ++ ustreamGetReadBuf st.s ∧
      st.s.r.dataBytes = (ustreamGetReadBuf st.s).length ∧
      (ustreamGetReadBuf st.s).length ≤ 32768 ∧
      (stringData = true → ∀ buf ∈ st.s.r.chain, buf.tail ≤ buf.len ∧ buf.mem buf.tail = 0) ∧
      ∀ op, st.step op = none ↔
        ∃ len, op = .consume len ∧ (ustreamGetReadBuf st.s).length < len := by
  have hok := ok_of_run h
  rw [ustreamGetReadBuf_eq hok.read hok.rMax]
  refine ⟨hok.fed, hok.read.dataBytes, ?_, fun hstring buf hbuf => ?_,
    fun op => ⟨fun hnone => ?_, ?_⟩⟩
  · rw [← hok.rLen]
    exact hok.read.ok.length_bytes_le hok.rMax
  · have hbuf := (hok.read.ok.ok buf hbuf).1
    exact ⟨hbuf.tail_le, hbuf.terminated (hok.stringData.trans hstring)⟩
  · rcases hok.step op with ⟨st', hst', -⟩ | ⟨len, hop, hlt, -⟩
    · exact absurd (hst'.symm.trans hnone) nofun
    · exact ⟨len, hop, hlt⟩
  · rintro ⟨len, rfl, hlt⟩
    rw [StreamRun.step, ustreamConsume_eq_none hok.read hlt]
    rfl

/-- Three bytes arrive in a block that is not clear, and the user consumes two of them. -/
theorem read_of_run_three : ∃ st,
    [StreamOp.fdRead (.got [1, 2, 3]) (some fun _ => 7), .consume 2].foldlM StreamRun.step
        (start true) = some st ∧
      st.fed = st.taken ++ ustreamGetReadBuf st.s ∧
      (ustreamGetReadBuf st.s).length ≤ 32768 ∧
      ∀ buf ∈ st.s.r.chain, buf.tail ≤ buf.len ∧ buf.mem buf.tail = 0 :=
  have h := @read_of_run true _
    [.fdRead (.got [1, 2, 3]) (some fun _ => 7), .consume 2] rfl
  ⟨_, rfl, h.1, h.2.2.1, h.2.2.2.1 rfl⟩

/-! ### Blocking -/

/-- An operation for which a buffer is got when the stream reads. -/
def HasMemory : StreamOp → Prop
  | .fdRead _ malloc => malloc ≠ none
  | _ => True

/-- A stream that is blocked by itself is full. -/
def BlockedIsFull (st : StreamRun) : Prop :=
  st.s.blockedFull = true → st.s.r.bytes.length = 32768

theorem BlockedIsFull.step (h : st.Ok stringData) (hfull : st.BlockedIsFull) {op : StreamOp}
    (hop : HasMemory op) {st' : StreamRun} (hstep : st.step op = some st') :
    st'.BlockedIsFull := by
  have hwrite {s' : Ustream} {accepted sent : List UInt8}
      (hw : WriteStep st.s s' accepted sent) (hblocked : s'.blockedFull = true) :
      s'.r.bytes.length = 32768 := by
    obtain ⟨hr, -, hb⟩ := hw.read
    rw [hr]
    exact hfull (hb.symm.trans hblocked)
  intro hblocked
  cases op with
  | fdRead res malloc =>
    obtain ⟨s', src, hres, hiter⟩ := ustreamFdReadIter_spec h.read res malloc
    obtain rfl := Option.some.inj (hstep.symm.trans (congrArg (Option.map _) hres))
    rcases hiter.blocked h.rMax hop hblocked with rfl | hlength
    · exact hfull hblocked
    · exact hlength.trans (hiter.same.bufferLen.trans h.rLen)
  | consume len =>
    rcases lt_or_ge st.s.r.bytes.length len with hlt | hle
    · rw [StreamRun.step, ustreamConsume_eq_none h.read hlt] at hstep
      exact absurd hstep nofun
    · obtain ⟨s', hs', -, -, -, hsame⟩ := ustreamConsume_spec h.read hle
      obtain rfl := Option.some.inj (hstep.symm.trans (congrArg (Option.map _) hs'))
      rcases hsame with rfl | hfalse
      · exact hfull hblocked
      · exact absurd (hblocked.symm.trans hfalse) nofun
  | read buflen =>
    obtain ⟨s', hs', -, -, -, hsame⟩ :=
      ustreamRead_spec h.read (buflen + 1) (Nat.lt_succ_self buflen)
    obtain rfl := Option.some.inj (hstep.symm.trans (congrArg (Option.map _) hs'))
    rcases hsame with rfl | hfalse
    · exact hfull hblocked
    · exact absurd (hblocked.symm.trans hfalse) nofun
  | setReadBlocked set =>
    obtain rfl := Option.some.inj hstep
    exact hfull hblocked
  | write fd malloc data =>
    obtain rfl := Option.some.inj hstep
    exact hwrite (ustreamWrite_spec fd h.write).step hblocked
  | vprintf fd malloc room tmp text =>
    obtain rfl := Option.some.inj hstep
    exact hwrite (ustreamVprintf_spec fd room tmp h.write).1 hblocked
  | writePending fd =>
    obtain ⟨s', sent, hs', hw⟩ := ustreamWritePending_spec fd h.write
    obtain rfl := Option.some.inj (hstep.symm.trans (congrArg (Option.map _) hs'))
    exact hwrite hw hblocked
  | fdError =>
    obtain rfl := Option.some.inj hstep
    exact hfull hblocked
  | stateChange =>
    obtain rfl := Option.some.inj hstep
    exact hwrite (ustreamStateChangeCb_spec h.write) hblocked

/-- **No stream stays blocked with room left**: over every run in which a buffer is got when it is
asked for, a stream that has blocked itself shows 32768 bytes; while it shows fewer, and the user
has not blocked it, the next bytes of the descriptor are read. -/
theorem blocked_of_run {ops : List StreamOp}
    (h : ops.foldlM StreamRun.step (start stringData) = some st) (hops : ∀ op ∈ ops, HasMemory op) :
    (st.s.blockedFull = true → (ustreamGetReadBuf st.s).length = 32768) ∧
      (st.s.blockedUser = false → (ustreamGetReadBuf st.s).length < 32768 →
        ∀ b bytes mem, ∃ st' src, st.step (.fdRead (.got (b :: bytes)) (some mem)) = some st' ∧
          st'.fed = st.fed ++ b :: src ∧ src <+: bytes) := by
  have hok := ok_of_run h
  have hfull : st.BlockedIsFull :=
    (invariant_of_foldlM (P := fun st => st.Ok stringData ∧ st.BlockedIsFull) (C := HasMemory)
      (fun _ _ _ hs hop hstep => ⟨hs.1.step_some hstep, hs.2.step hs.1 hop hstep⟩) hops
      ⟨ok_start stringData, nofun⟩ h).2
  rw [ustreamGetReadBuf_eq hok.read hok.rMax]
  refine ⟨hfull, fun huser hroom b bytes mem => ?_⟩
  obtain ⟨s', src, hres, hiter⟩ :=
    ustreamFdReadIter_spec hok.read (.got (b :: bytes)) (some mem)
  have hopen : st.s.blockedFull = false := by
    by_contra hblocked
    have := hfull (Bool.eq_true_of_not_eq_false hblocked)
    omega
  have hne := hiter.progress hok.rMax (Option.some_ne_none mem) huser hopen
    (by rw [hok.rLen]; omega) b bytes rfl
  obtain ⟨c, src, rfl⟩ := List.exists_cons_of_ne_nil hne
  obtain ⟨rfl, hsrc⟩ := List.cons_prefix_cons.mp (hiter.offered _ rfl)
  exact ⟨_, src, congrArg (Option.map _) hres, rfl, hsrc⟩

/-- A stream that shows three bytes reads on. -/
theorem blocked_of_run_three : ∃ st,
    [StreamOp.fdRead (.got [1, 2, 3]) (some fun _ => 7)].foldlM StreamRun.step (start true) =
        some st ∧
      ∀ b bytes mem, ∃ st' src, st.step (.fdRead (.got (b :: bytes)) (some mem)) = some st' ∧
        st'.fed = st.fed ++ b :: src ∧ src <+: bytes :=
  ⟨_, rfl, (@blocked_of_run true _ [.fdRead (.got [1, 2, 3]) (some fun _ => 7)] rfl
    (List.forall_mem_singleton.mpr (Option.some_ne_none _))).2 rfl (by decide)⟩

/-! ### Writing -/

/-- **What is written is a queue**: over every run, what has been sent are the first of the bytes
that the calls have accepted, and as long as there has been no error the others wait in the chain
and are counted. While memory is got, a call that writes or prints and reports no error has
accepted all the bytes. -/
theorem written_of_run {ops : List StreamOp}
    (h : ops.foldlM StreamRun.step (start stringData) = some st) :
    st.sent <+: st.accepted ∧
      (st.s.writeError = false → st.sent ++ st.s.w.bytes = st.accepted ∧
        st.s.w.dataBytes = st.s.w.bytes.length ∧
        ∀ fd malloc data, (∀ n, malloc n ≠ none) →
          ((ustreamWrite fd malloc data st.s).ret = data.length ∨
            (ustreamWrite fd malloc data st.s).ret = -1) ∧
          ∀ mem, (ustreamVprintf fd malloc (some mem) true data st.s).ret = data.length ∨
            (ustreamVprintf fd malloc (some mem) true data st.s).ret = -1) := by
  have hok := ok_of_run h
  refine ⟨hok.sent, fun herr => ⟨hok.alive herr, (hok.write herr).2,
    fun fd malloc data hmalloc => ?_⟩⟩
  have hmax : st.s.w.maxBuffers ≤ 0 := hok.wMax.le.trans (by decide)
  exact ⟨(ustreamWrite_spec fd hok.write).all herr hmalloc hmax, fun mem =>
    (ustreamVprintf_spec fd (some mem) true hok.write).2 herr hmalloc nofun rfl hmax⟩

/-- Three bytes of which the descriptor takes one, a text behind them, and the rest of a buffer. -/
theorem written_of_run_three : ∃ st,
    [StreamOp.write [.took 1, .eagain] (fun _ => some fun _ => 7) [1, 2, 3],
        .vprintf [] (fun _ => none) none true [4], .writePending fun _ => [.took 2]].foldlM
        StreamRun.step (start true) = some st ∧
      st.sent <+: st.accepted ∧ st.sent ++ st.s.w.bytes = st.accepted :=
  have h := @written_of_run true _
    [.write [.took 1, .eagain] (fun _ => some fun _ => 7) [1, 2, 3],
      .vprintf [] (fun _ => none) none true [4], .writePending fun _ => [.took 2]] rfl
  ⟨_, rfl, h.1, (h.2 rfl).1⟩

end StreamRun

end M57Card.Libubox
