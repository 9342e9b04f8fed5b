import M57Card.Libubox.StreamReading

/-!
# What a stream writes

A write goes to the descriptor at once when nothing waits in the chain `w`. What the descriptor does
not take is copied into the chain, and the event loop writes the chain out when the descriptor can
take more (`ustream.c`, lines 364–530, `ustream-fd.c`, lines 84–114). After an error nothing is
written any more.

A call of `write` on the descriptor may take a part of the bytes. Behind the end of the list of its
results the descriptor takes nothing.

## Main definitions

* `ustreamFdWrite`, `ustreamWriteBuffered`, `ustreamWrite`, `ustreamVprintf`,
  `ustreamWritePending`.
* `WriteStep` : what an operation may do to what is sent and what waits.

## Main results

* `ustreamWrite_spec`, `ustreamVprintf_spec`, `ustreamWritePending_spec` : every operation is such a
  step, so formatted text is written as its bytes are.
-/

namespace M57Card.Libubox

/-- What `write` on the descriptor gives: the number of bytes it takes, or an error. -/
inductive WriteResult where
  | took (n : ℕ)
  | eintr
  | eagain
  | err
  deriving DecidableEq

/-- The loop of `ustream_fd_write`: the bytes that are sent, and whether it ends without an
error. -/
def fdWriteLoop : List WriteResult → List UInt8 → List UInt8 × Bool
  | [], _ => ([], true)
  | res :: fd, data =>
    if data = [] then
      ([], true)
    else
      match res with
      | .took n =>
          let (sent, ok) := fdWriteLoop fd (data.drop n)
          (data.take n ++ sent, ok)
      | .eintr => fdWriteLoop fd data
      | .eagain => ([], true)
      | .err => ([], false)

/-- `ustream_fd_write`, with the bytes that are sent. -/
def ustreamFdWrite (fd : List WriteResult) (data : List UInt8) : List UInt8 × ℤ :=
  let r := fdWriteLoop fd data
  (r.1, if r.2 then r.1.length else -1)

/-- The loop of `ustream_write_buffered`; `malloc n` is the block that is got when `n` bytes are
left. -/
def writeBufferedLoop (malloc : ℕ → Option Mem) :
    ℕ → List UInt8 → UstreamBufList → UstreamBufList × ℕ
  | 0, _, l => (l, 0)
  | fuel + 1, data, l =>
    if data = [] then
      (l, 0)
    else
      match ustreamPrepareBuf false (malloc data.length) l data.length with
      | (false, l) => (l, 0)
      | (true, l) =>
        match l.rest with
        | [] => (l, 0)
        | buf :: _ =>
          let maxlen := min (buf.len - buf.tail) data.length
          let l := { l.setDataTail (buf.put false (data.take maxlen)) with
            dataBytes := l.dataBytes + maxlen }
          let (l, wr) := writeBufferedLoop malloc fuel (data.drop maxlen) l
          (l, maxlen + wr)

/-- `ustream_write_buffered`, with the number of bytes that it has copied. -/
def ustreamWriteBuffered (malloc : ℕ → Option Mem) (data : List UInt8) (l : UstreamBufList) :
    UstreamBufList × ℕ :=
  writeBufferedLoop malloc data.length data l

/-- What an operation that writes gives: the stream, the returned number and the bytes that are
sent. -/
structure Written where
  s : Ustream
  ret : ℤ
  sent : List UInt8 := []

/-- The end of an operation that copies `data` into the chain, after `wr` bytes. -/
def copyRest (malloc : ℕ → Option Mem) (data : List UInt8) (wr : ℤ) (sent : List UInt8)
    (s : Ustream) : Written :=
  let (l, n) := ustreamWriteBuffered malloc data s.w
  ⟨{ s with w := l }, wr + n, sent⟩

/-- A write to the descriptor while nothing waits. -/
def writeThrough (fd : List WriteResult) (malloc : ℕ → Option Mem) (data : List UInt8)
    (s : Ustream) : Written :=
  let (sent, wr) := ustreamFdWrite fd data
  if wr = data.length then
    ⟨s, wr, sent⟩
  else if wr < 0 then
    ⟨{ s with writeError := true }, wr, sent⟩
  else
    copyRest malloc (data.drop wr.toNat) wr sent s

/-- `ustream_write`. -/
def ustreamWrite (fd : List WriteResult) (malloc : ℕ → Option Mem) (data : List UInt8)
    (s : Ustream) : Written :=
  if s.writeError then
    ⟨s, 0, []⟩
  else if s.w.dataBytes = 0 then
    writeThrough fd malloc data s
  else
    copyRest malloc data 0 [] s

/-- `MAX_STACK_BUFLEN`. -/
def MAX_STACK_BUFLEN : ℕ := 256

/-- `ustream_vprintf`, for the formatted text. `room` is the block that is got for the chain, and
`tmp` tells whether the block for a long text is got. -/
def ustreamVprintf (fd : List WriteResult) (malloc : ℕ → Option Mem) (room : Option Mem)
    (tmp : Bool) (text : List UInt8) (s : Ustream) : Written :=
  if s.writeError then
    ⟨s, 0, []⟩
  else if s.w.dataBytes = 0 then
    if text.length < MAX_STACK_BUFLEN then
      let (sent, wr) := ustreamFdWrite fd text
      if wr < 0 then
        ⟨{ s with writeError := true }, wr, sent⟩
      else if wr = text.length then
        ⟨s, wr, sent⟩
      else
        copyRest malloc (text.drop wr.toNat) wr sent s
    else if tmp then
      ustreamWrite fd malloc text s
    else
      ⟨s, 0, []⟩
  else
    match ustreamPrepareBuf false room s.w 1 with
    | (false, l) => ⟨{ s with w := l }, 0, []⟩
    | (true, l) =>
      match l.rest with
      | [] => ⟨{ s with w := l }, 0, []⟩
      | buf :: _ =>
        let buflen := buf.len - buf.tail
        let wr := if buflen ≤ text.length then buflen - 1 else text.length
        -- `vsnprintf` writes a zero behind the text
        let l := { l.setDataTail (buf.put true (text.take wr)) with dataBytes := l.dataBytes + wr }
        if text.length < buflen ∨ tmp = false then
          ⟨{ s with w := l }, wr, []⟩
        else
          copyRest malloc (text.drop wr) wr [] { s with w := l }

/-- The loop of `ustream_write_pending`, with the error flag and the bytes that are sent. -/
def writePendingLoop (fd : ℕ → List WriteResult) :
    ℕ → UstreamBufList → Option (UstreamBufList × Bool × List UInt8)
  | 0, l => if l.chain = [] ∨ l.dataBytes = 0 then some (l, false, []) else none
  | fuel + 1, l =>
    match l.chain with
    | [] => some (l, false, [])
    | buf :: next =>
      if l.dataBytes = 0 then
        some (l, false, [])
      else
        let (sent, len) := ustreamFdWrite (fd fuel) buf.bytes
        if len < 0 then
          some (l, true, sent)
        else if len = 0 then
          some (l, false, sent)
        else
          let l := { l with dataBytes := l.dataBytes - len }
          if len < (buf.tail - buf.data : ℕ) then
            some (l.setHead { buf with data := buf.data + len.toNat }, false, sent)
          else
            let l := ustreamFreeBuf l buf
            if next = [] then
              some (l, false, sent)
            else
              (writePendingLoop fd fuel l).map fun p => (p.1, p.2.1, sent ++ p.2.2)

/-- `ustream_write_pending`, with the bytes that are sent; `fd n` are the results for the buffer
that is written when the loop may go on for `n` more. -/
def ustreamWritePending (fd : ℕ → List WriteResult) (s : Ustream) :
    Option (Ustream × List UInt8) :=
  if s.writeError then
    some (s, [])
  else
    (writePendingLoop fd s.w.dataBytes.toNat s.w).map fun p =>
      ({ s with w := p.1, writeError := p.2.1 }, p.2.2)

/-- `ustream_state_change_cb`: after an error the chain that waits is freed; the counters stay. -/
def ustreamStateChangeCb (s : Ustream) : Ustream :=
  if s.writeError then { s with w := { s.w with filled := [], rest := [] } } else s

/-! ### The descriptor -/

variable {s : Ustream} {l : UstreamBufList}

theorem sent_fdWriteLoop (fd : List WriteResult) (data : List UInt8) :
    (fdWriteLoop fd data).1 <+: data := by
  induction fd generalizing data with
  | nil => exact List.nil_prefix
  | cons res fd ih =>
    rcases eq_or_ne data [] with rfl | hne
    · cases res <;> exact List.nil_prefix
    · cases res with
      | took n =>
        obtain ⟨others, hothers⟩ := ih (data.drop n)
        refine ⟨others, ?_⟩
        rw [fdWriteLoop, if_neg hne]
        dsimp only
        rw [List.append_assoc, hothers, List.take_append_drop]
      | eintr =>
        rw [fdWriteLoop, if_neg hne]
        exact ih data
      | eagain =>
        rw [fdWriteLoop, if_neg hne]
        exact List.nil_prefix
      | err =>
        rw [fdWriteLoop, if_neg hne]
        exact List.nil_prefix

/-- **The descriptor** takes the first bytes, and their number is returned unless there is an
error. -/
theorem ustreamFdWrite_spec (fd : List WriteResult) (data : List UInt8) :
    (ustreamFdWrite fd data).1 <+: data ∧
      ((ustreamFdWrite fd data).2 = -1 ∨
        (ustreamFdWrite fd data).2 = (ustreamFdWrite fd data).1.length) := by
  refine ⟨sent_fdWriteLoop fd data, ?_⟩
  rw [ustreamFdWrite]
  dsimp only
  split
  · exact .inr rfl
  · exact .inl rfl

/-! ### Copying into the chain -/

open UstreamBufList

/-- What a copy of `data` into the chain gives: its first bytes are behind the others, and it stops
only at a chain that is full and cannot grow. -/
structure Buffered (malloc : ℕ → Option Mem) (data : List UInt8) (l : UstreamBufList)
    (res : UstreamBufList × ℕ) : Prop where
  ok : res.1.Ok false
  dataBytes : res.1.dataBytes = res.1.bytes.length
  le : res.2 ≤ data.length
  bytes : res.1.bytes = l.bytes ++ data.take res.2
  maxBuffers : res.1.maxBuffers = l.maxBuffers
  full : res.2 < data.length → ∃ n, res.1.IsFull (malloc n)

theorem buffered_nil {malloc : ℕ → Option Mem} {data : List UInt8} {l' : UstreamBufList}
    (hcount : l.dataBytes = l.bytes.length) (hok : l'.Ok false) (hbytes : l'.bytes = l.bytes)
    (hbounds : SameBounds l l') (hfull : data ≠ [] → ∃ n, l'.IsFull (malloc n)) :
    Buffered malloc data l (l', 0) where
  ok := hok
  dataBytes := by rw [hbounds.dataBytes, hcount, hbytes]
  le := Nat.zero_le _
  bytes := by rw [hbytes, List.take_zero, List.append_nil]
  maxBuffers := hbounds.maxBuffers
  full hlt := hfull (List.ne_nil_of_length_pos hlt)

/-- A copy that goes on behind the first `n` bytes. -/
theorem Buffered.cons {malloc : ℕ → Option Mem} {data : List UInt8} {n : ℕ}
    {l₁ : UstreamBufList} {res : UstreamBufList × ℕ} (h : Buffered malloc (data.drop n) l₁ res)
    (hn : n ≤ data.length) (hbytes : l₁.bytes = l.bytes ++ data.take n)
    (hmax : l₁.maxBuffers = l.maxBuffers) : Buffered malloc data l (res.1, n + res.2) := by
  have hle := h.le
  rw [List.length_drop] at hle
  refine ⟨h.ok, h.dataBytes, ?_, ?_, h.maxBuffers.trans hmax, fun hlt => h.full ?_⟩
  · dsimp only
    omega
  · rw [h.bytes, hbytes, List.append_assoc, ← List.take_add]
  · rw [List.length_drop]
    dsimp only at hlt
    omega

/-- **The loop of `ustream_write_buffered`** copies until the chain cannot grow. -/
theorem writeBufferedLoop_spec (malloc : ℕ → Option Mem) (fuel : ℕ) {data : List UInt8}
    (h : l.Ok false) (hcount : l.dataBytes = l.bytes.length) (hfuel : data.length ≤ fuel) :
    Buffered malloc data l (writeBufferedLoop malloc fuel data l) := by
  induction fuel generalizing data l with
  | zero =>
    refine buffered_nil hcount h rfl ⟨rfl, rfl, rfl, rfl⟩ fun hne => absurd ?_ hne
    exact List.eq_nil_of_length_eq_zero (Nat.le_zero.mp hfuel)
  | succ fuel ih =>
    rw [writeBufferedLoop]
    rcases eq_or_ne data [] with rfl | hne
    · rw [if_pos rfl]
      exact buffered_nil hcount h rfl ⟨rfl, rfl, rfl, rfl⟩ fun hne => absurd rfl hne
    · have hprep := h.prepareBuf (malloc data.length) data.length
      rcases hres : ustreamPrepareBuf false (malloc data.length) l data.length with ⟨ok, l₁⟩
      rw [hres] at hprep
      obtain ⟨hok, hbytes, hbounds, hroom, hfull⟩ := hprep
      rw [if_neg hne]
      cases ok with
      | false => exact buffered_nil hcount hok hbytes hbounds fun _ => ⟨_, hfull rfl⟩
      | true =>
        obtain ⟨buf, next, hr, hlt⟩ := hroom rfl
        dsimp only
        rw [hr]
        dsimp only
        generalize hmax : min (buf.len - buf.tail) data.length = maxlen
        have hpos := List.length_pos_iff.mpr hne
        have hle : maxlen ≤ data.length := by omega
        have hcount₁ : l₁.dataBytes = l₁.bytes.length := by
          rw [hbounds.dataBytes, hcount, hbytes]
        obtain ⟨hok₂, hbytes₂, hcount₂⟩ :=
          hok.fill hcount₁ hr id (List.length_take_of_le hle) (by omega) rfl
        rw [hbytes] at hbytes₂
        exact (ih hok₂ hcount₂ (by rw [List.length_drop]; omega)).cons hle hbytes₂
          hbounds.maxBuffers

theorem ustreamWriteBuffered_spec (malloc : ℕ → Option Mem) (data : List UInt8) (h : l.Ok false)
    (hcount : l.dataBytes = l.bytes.length) :
    Buffered malloc data l (ustreamWriteBuffered malloc data l) :=
  writeBufferedLoop_spec malloc data.length h hcount le_rfl

/-! ### Steps -/

/-- The invariant of what a stream writes, as long as there has been no error. -/
def Ustream.WriteOk (s : Ustream) : Prop :=
  s.writeError = false → s.w.Ok false ∧ s.w.dataBytes = s.w.bytes.length

/-- An operation that makes the stream accept `accepted` and sends `sent` keeps what is sent and
what waits behind each other, without loss. At an error, what has been sent are the first of these
bytes; after it nothing is accepted or sent. -/
structure WriteStep (s s' : Ustream) (accepted sent : List UInt8) : Prop where
  ok : s'.WriteOk
  silent : s.writeError = true → s'.writeError = true ∧ accepted = [] ∧ sent = []
  alive : s'.writeError = false → sent ++ s'.w.bytes = s.w.bytes ++ accepted
  error : s.writeError = false → s'.writeError = true → sent <+: s.w.bytes ++ accepted
  maxBuffers : s'.w.maxBuffers = s.w.maxBuffers
  read : s'.r = s.r ∧ s'.stringData = s.stringData ∧ s'.blockedFull = s.blockedFull

/-- The bytes of `data` that a call has accepted: as many as it returns, or all of them when it
reports an error, for it may have sent any of them. -/
def Written.accepted (res : Written) (data : List UInt8) : List UInt8 :=
  if res.ret < 0 then data else data.take res.ret.toNat

/-- Nothing is written after an error. -/
theorem writeStep_over (h : s.writeError = true) : WriteStep s s [] [] where
  ok hfalse := absurd (h.symm.trans hfalse) nofun
  silent _ := ⟨h, rfl, rfl⟩
  alive hfalse := absurd (h.symm.trans hfalse) nofun
  error hfalse := absurd (h.symm.trans hfalse) nofun
  maxBuffers := rfl
  read := ⟨rfl, rfl, rfl⟩

/-- What a call that writes `data` does; while blocks are got and the number of buffers has no
bound, it accepts all bytes or reports an error. -/
structure WriteCall (malloc : ℕ → Option Mem) (data : List UInt8) (s : Ustream)
    (res : Written) : Prop where
  step : WriteStep s res.s (res.accepted data) res.sent
  all : s.writeError = false → (∀ n, malloc n ≠ none) → s.w.maxBuffers ≤ 0 →
    res.ret = data.length ∨ res.ret = -1

theorem not_isFull {mem : Mem} (h : l.maxBuffers ≤ 0) : ¬ l.IsFull (some mem) := by
  intro hfull
  have halloc := hfull.alloc
  rw [ustreamAllocDefault, ustreamCanAlloc, decide_eq_true h, Bool.true_or, if_pos rfl] at halloc
  exact Option.some_ne_none _ halloc

variable {malloc : ℕ → Option Mem} {data : List UInt8}

/-- A call that copies what is left behind the first `k` bytes. -/
theorem writeCall_copyRest {l₁ : UstreamBufList} {k : ℕ} {sent : List UInt8}
    (herr : s.writeError = false) (hok : l₁.Ok false) (hcount : l₁.dataBytes = l₁.bytes.length)
    (hmax : l₁.maxBuffers = s.w.maxBuffers) (hk : k ≤ data.length)
    (hsent : sent ++ l₁.bytes = s.w.bytes ++ data.take k) :
    WriteCall malloc data s (copyRest malloc (data.drop k) k sent { s with w := l₁ }) := by
  have hcopy := ustreamWriteBuffered_spec malloc (data.drop k) hok hcount
  rw [copyRest]
  dsimp only
  generalize ustreamWriteBuffered malloc (data.drop k) l₁ = res at hcopy
  have hle := hcopy.le
  rw [List.length_drop] at hle
  have haccepted : (⟨{ s with w := res.1 }, (k : ℤ) + res.2, sent⟩ : Written).accepted data =
      data.take k ++ (data.drop k).take res.2 := by
    rw [Written.accepted, if_neg (by dsimp only; omega), ← List.take_add]
    rfl
  refine ⟨⟨fun _ => ⟨hcopy.ok, hcopy.dataBytes⟩, fun h => absurd (h.symm.trans herr) nofun,
    fun _ => ?_, fun _ h => absurd (h.symm.trans herr) nofun, hcopy.maxBuffers.trans hmax,
    rfl, rfl, rfl⟩, fun _ hmalloc hbound => .inl ?_⟩
  · rw [haccepted]
    dsimp only
    rw [hcopy.bytes, ← List.append_assoc, hsent, List.append_assoc]
  · by_contra hne
    dsimp only at hne
    obtain ⟨n, hfull⟩ := hcopy.full (by rw [List.length_drop]; omega)
    obtain ⟨mem, hmem⟩ := Option.ne_none_iff_exists'.mp (hmalloc n)
    rw [hmem] at hfull
    exact not_isFull (by rw [hcopy.maxBuffers, hmax]; exact hbound) hfull

/-- A call that writes to the descriptor, while nothing waits. -/
theorem writeCall_writeThrough (fd : List WriteResult) (h : s.WriteOk)
    (herr : s.writeError = false) (hzero : s.w.dataBytes = 0) :
    WriteCall malloc data s (writeThrough fd malloc data s) := by
  obtain ⟨hok, hcount⟩ := h herr
  have hnil : s.w.bytes = [] := List.eq_nil_of_length_eq_zero (by omega)
  obtain ⟨hpre, hret⟩ := ustreamFdWrite_spec fd data
  rw [writeThrough]
  generalize ustreamFdWrite fd data = out at hpre hret
  obtain ⟨sent, wr⟩ := out
  dsimp only at hpre hret ⊢
  have hle := hpre.length_le
  split_ifs with hall hneg
  · have hlen : sent.length = data.length := by omega
    obtain rfl := hpre.eq_of_length hlen
    have haccepted : (⟨s, wr, sent⟩ : Written).accepted sent = sent := by
      rw [Written.accepted, hall, if_neg (by dsimp only; omega)]
      exact List.take_of_length_le (by dsimp only; omega)
    refine ⟨⟨h, fun h => absurd (h.symm.trans herr) nofun, fun _ => ?_,
      fun _ h => absurd (h.symm.trans herr) nofun, rfl, rfl, rfl, rfl⟩, fun _ _ _ => .inl hall⟩
    rw [haccepted, hnil, List.append_nil, List.nil_append]
  · have haccepted : (⟨{ s with writeError := true }, wr, sent⟩ : Written).accepted data = data :=
      if_pos hneg
    refine ⟨⟨nofun, fun h => absurd (h.symm.trans herr) nofun, nofun, fun _ _ => ?_,
      rfl, rfl, rfl, rfl⟩, fun _ _ _ => .inr (by dsimp only; omega)⟩
    rw [haccepted, hnil, List.nil_append]
    exact hpre
  · have hwr : wr = sent.length := by omega
    have htake : data.take sent.length = sent := (List.prefix_iff_eq_take.mp hpre).symm
    rw [hwr, Int.toNat_natCast]
    refine writeCall_copyRest herr hok hcount rfl hle ?_
    rw [hnil, htake, List.append_nil, List.nil_append]

theorem writeCall_over (herr : s.writeError = true) : WriteCall malloc data s ⟨s, 0, []⟩ where
  step := writeStep_over herr
  all hfalse := absurd (herr.symm.trans hfalse) nofun

/-- **`ustream_write`** accepts bytes behind those that wait. -/
theorem ustreamWrite_spec (fd : List WriteResult) (h : s.WriteOk) :
    WriteCall malloc data s (ustreamWrite fd malloc data s) := by
  rw [ustreamWrite]
  split_ifs with herr hzero
  · exact writeCall_over herr
  · exact writeCall_writeThrough fd h (Bool.eq_false_of_not_eq_true herr) hzero
  · have herr := Bool.eq_false_of_not_eq_true herr
    obtain ⟨hok, hcount⟩ := h herr
    exact @writeCall_copyRest s malloc data _ 0 [] herr hok hcount rfl (Nat.zero_le _)
      (List.append_nil _).symm

/-- Bytes that a call has copied behind those that wait. -/
theorem writeStep_copied {l₁ : UstreamBufList} {accepted : List UInt8}
    (herr : s.writeError = false) (hok : l₁.Ok false) (hcount : l₁.dataBytes = l₁.bytes.length)
    (hmax : l₁.maxBuffers = s.w.maxBuffers) (hbytes : l₁.bytes = s.w.bytes ++ accepted) :
    WriteStep s { s with w := l₁ } accepted [] where
  ok _ := ⟨hok, hcount⟩
  silent h := absurd (h.symm.trans herr) nofun
  alive _ := hbytes
  error _ h := absurd (h.symm.trans herr) nofun
  maxBuffers := hmax
  read := ⟨rfl, rfl, rfl⟩

/-- A call that refuses all bytes. -/
theorem accepted_zero (s : Ustream) (sent : List UInt8) :
    (⟨s, 0, sent⟩ : Written).accepted data = [] := if_neg (lt_irrefl 0)

/-- **`ustream_vprintf`** accepts the bytes of the text behind those that wait, as `ustream_write`
does; it stops short of them only when a block is not got or at the bound of the chain. -/
theorem ustreamVprintf_spec (fd : List WriteResult) (room : Option Mem) (tmp : Bool)
    (h : s.WriteOk) :
    WriteStep s (ustreamVprintf fd malloc room tmp data s).s
      ((ustreamVprintf fd malloc room tmp data s).accepted data)
      (ustreamVprintf fd malloc room tmp data s).sent ∧
    (s.writeError = false → (∀ n, malloc n ≠ none) → room ≠ none → tmp = true →
      s.w.maxBuffers ≤ 0 → (ustreamVprintf fd malloc room tmp data s).ret = data.length ∨
        (ustreamVprintf fd malloc room tmp data s).ret = -1) := by
  rw [ustreamVprintf]
  by_cases herr : s.writeError = true
  · rw [if_pos herr]
    exact ⟨writeStep_over herr, fun hfalse => absurd (herr.symm.trans hfalse) nofun⟩
  · rw [if_neg herr]
    have herr := Bool.eq_false_of_not_eq_true herr
    obtain ⟨hok, hcount⟩ := h herr
    have hstay : WriteStep s { s with w := s.w } [] [] :=
      writeStep_copied herr hok hcount rfl (List.append_nil _).symm
    split_ifs with hzero hshort htmp
    · -- the text is written as it is
      have hthrough : (let (sent, wr) := ustreamFdWrite fd data
          if wr < 0 then (⟨{ s with writeError := true }, wr, sent⟩ : Written)
          else if wr = data.length then ⟨s, wr, sent⟩
          else copyRest malloc (data.drop wr.toNat) wr sent s) = writeThrough fd malloc data s := by
        rw [writeThrough]
        dsimp only
        split_ifs <;> first | rfl | omega
      obtain ⟨hstep, hall⟩ := @writeCall_writeThrough s malloc data fd h herr hzero
      rw [hthrough]
      exact ⟨hstep, fun herr hmalloc _ _ hbound => hall herr hmalloc hbound⟩
    · obtain ⟨hstep, hall⟩ := @ustreamWrite_spec s malloc data fd h
      exact ⟨hstep, fun herr hmalloc _ _ hbound => hall herr hmalloc hbound⟩
    · rw [accepted_zero]
      exact ⟨hstay, fun _ _ _ htrue => absurd htrue htmp⟩
    · have hprep := hok.prepareBuf room 1
      rcases hres : ustreamPrepareBuf false room s.w 1 with ⟨ok, l⟩
      rw [hres] at hprep
      obtain ⟨hok₁, hbytes₁, hbounds, hroom, hfull⟩ := hprep
      have hcount₁ : l.dataBytes = l.bytes.length := by rw [hbounds.dataBytes, hcount, hbytes₁]
      cases ok with
      | false =>
        refine ⟨?_, fun _ _ hne _ hbound => ?_⟩
        · rw [accepted_zero]
          exact writeStep_copied herr hok₁ hcount₁ hbounds.maxBuffers
            (hbytes₁.trans (List.append_nil _).symm)
        · obtain ⟨mem, hmem⟩ := Option.ne_none_iff_exists'.mp hne
          rw [hmem] at hfull
          exact absurd (hfull rfl) (not_isFull (hbounds.maxBuffers.le.trans hbound))
      | true =>
        obtain ⟨buf, next, hr, hlt⟩ := hroom rfl
        dsimp only
        rw [hr]
        dsimp only
        generalize hwr : (if buf.len - buf.tail ≤ data.length then buf.len - buf.tail - 1
          else data.length) = wr
        have hle : wr ≤ data.length ∧ wr ≤ buf.len - buf.tail ∧
            (data.length < buf.len - buf.tail → wr = data.length) := by
          rw [← hwr]
          split <;> omega
        obtain ⟨hok₂, hbytes₂, hcount₂⟩ :=
          hok₁.fill hcount₁ hr (fun _ => rfl) (List.length_take_of_le hle.1) hle.2.1 rfl
        rw [hbytes₁] at hbytes₂
        split_ifs with hfits
        · have haccepted (s' : Ustream) :
              (⟨s', (wr : ℤ), []⟩ : Written).accepted data = data.take wr :=
            if_neg (by dsimp only; omega)
          rw [haccepted]
          refine ⟨writeStep_copied herr hok₂ hcount₂ hbounds.maxBuffers hbytes₂,
            fun _ _ _ htmp _ => .inl ?_⟩
          rcases hfits with hfits | hfits
          · exact congrArg Nat.cast (hle.2.2 hfits)
          · exact absurd (hfits.symm.trans htmp) nofun
        · obtain ⟨hstep, hall⟩ := @writeCall_copyRest s malloc data _ _ [] herr hok₂ hcount₂
            hbounds.maxBuffers hle.1 hbytes₂
          exact ⟨hstep, fun herr hmalloc _ _ hbound => hall herr hmalloc hbound⟩

/-! ### Writing out what waits -/

/-- What writing out a chain gives: the first of its bytes are sent, and without an error the others
still wait. -/
structure SentOut (l : UstreamBufList) (res : UstreamBufList × Bool × List UInt8) : Prop where
  sent : res.2.2 <+: l.bytes
  maxBuffers : res.1.maxBuffers = l.maxBuffers
  alive : res.2.1 = false →
    res.1.Ok false ∧ res.1.dataBytes = res.1.bytes.length ∧ res.2.2 ++ res.1.bytes = l.bytes

theorem sentOut_nil (h : l.Ok false) (hcount : l.dataBytes = l.bytes.length) :
    SentOut l (l, false, []) :=
  ⟨List.nil_prefix, rfl, fun _ => ⟨h, hcount, rfl⟩⟩

/-- **The loop of `ustream_write_pending`** sends the first of the bytes that wait. -/
theorem writePendingLoop_spec (fd : ℕ → List WriteResult) (fuel : ℕ) (h : l.Ok false)
    (hcount : l.dataBytes = l.bytes.length) (hfuel : l.dataBytes.toNat ≤ fuel) :
    ∃ res, writePendingLoop fd fuel l = some res ∧ SentOut l res := by
  induction fuel generalizing l with
  | zero => exact ⟨_, if_pos (.inr (by omega)), sentOut_nil h hcount⟩
  | succ fuel ih =>
    rw [writePendingLoop]
    cases hc : l.chain with
    | nil => exact ⟨_, rfl, sentOut_nil h hcount⟩
    | cons buf next =>
      dsimp only
      by_cases hzero : l.dataBytes = 0
      · rw [if_pos hzero]
        exact ⟨_, rfl, sentOut_nil h hcount⟩
      rw [if_neg hzero]
      have hne : l.bytes ≠ [] := List.ne_nil_of_length_pos (by omega)
      have hbytes := bytes_of_chain hc
      have hlen := UstreamBuf.length_bytes buf
      have hhead := List.length_pos_iff.mpr (h.head_ne_nil hc hne)
      have hok := (h.ok buf (hc ▸ List.mem_cons_self)).1
      have hlength := congrArg List.length hbytes
      rw [List.length_append] at hlength
      obtain ⟨hpre, hret⟩ := ustreamFdWrite_spec (fd fuel) buf.bytes
      generalize ustreamFdWrite (fd fuel) buf.bytes = out at hpre hret
      obtain ⟨sent, len⟩ := out
      dsimp only at hpre hret ⊢
      have hle := hpre.length_le
      have hfirst : sent <+: l.bytes := by
        rw [hbytes]
        exact hpre.trans (List.prefix_append _ _)
      rw [← hlen]
      by_cases hneg : len < 0
      · rw [if_pos hneg]
        exact ⟨_, rfl, hfirst, rfl, nofun⟩
      obtain rfl : len = sent.length := by omega
      have hsplit : sent ++ buf.bytes.drop sent.length = buf.bytes := by
        obtain ⟨others, hothers⟩ := hpre
        rw [← hothers, List.drop_left]
      rw [if_neg hneg]
      by_cases hnone : (sent.length : ℤ) = 0
      · obtain rfl : sent = [] := List.eq_nil_of_length_eq_zero (by omega)
        rw [if_pos hnone]
        exact ⟨_, rfl, sentOut_nil h hcount⟩
      have hcut := h.setDataBytes (l.dataBytes - sent.length)
      rw [if_neg hnone]
      by_cases hlt : (sent.length : ℤ) < buf.bytes.length
      · -- a part of the first buffer
        rw [if_pos hlt, Int.toNat_natCast]
        have hset := hcut.setHead hc (hok.skip (show sent.length < _ by omega)) rfl rfl
        have hleft := bytes_of_chain (@chain_setHead
          { l with dataBytes := l.dataBytes - sent.length } _ _ hc
          { buf with data := buf.data + sent.length })
        rw [UstreamBuf.bytes_skip] at hleft
        refine ⟨_, rfl, hfirst, rfl, fun _ => ⟨hset, ?_, ?_⟩⟩
        · change l.dataBytes - sent.length = _
          rw [hleft, hcount, List.length_append, List.length_drop]
          omega
        · rw [hleft, ← List.append_assoc, hsplit, hbytes]
      · -- the whole of it
        obtain rfl := hpre.eq_of_length (by omega)
        obtain ⟨hfree, more, hchain, hmore⟩ := hcut.freeBuf hc
        have hbounds :=
          sameBounds_freeBuf { l with dataBytes := l.dataBytes - buf.bytes.length } buf
        generalize hl : ustreamFreeBuf { l with dataBytes := l.dataBytes - buf.bytes.length } buf =
          l₁ at hfree hchain hbounds
        have hleft : l₁.bytes = next.flatMap UstreamBuf.bytes := by
          rw [UstreamBufList.bytes, hchain, List.flatMap_append, hmore, List.append_nil]
        have hcount₁ : l₁.dataBytes = l₁.bytes.length := by
          rw [hbounds.dataBytes, hleft]
          dsimp only
          omega
        rw [← hleft] at hbytes
        rw [if_neg hlt]
        by_cases hnext : next = []
        · rw [if_pos hnext]
          exact ⟨_, rfl, hfirst, hbounds.maxBuffers, fun _ => ⟨hfree, hcount₁, hbytes.symm⟩⟩
        · obtain ⟨res, hres, hout⟩ :=
            ih hfree hcount₁ (by rw [hbounds.dataBytes]; dsimp only; omega)
          rw [if_neg hnext, hres]
          refine ⟨_, rfl, ?_, hout.maxBuffers.trans hbounds.maxBuffers, fun herr => ?_⟩
          · rw [hbytes]
            exact (List.prefix_append_right_inj _).mpr hout.sent
          · obtain ⟨hok', hcount', hsent'⟩ := hout.alive herr
            refine ⟨hok', hcount', ?_⟩
            dsimp only
            rw [List.append_assoc, hsent', hbytes]

/-- **`ustream_write_pending`** sends the first of the bytes that wait, and accepts nothing. -/
theorem ustreamWritePending_spec (fd : ℕ → List WriteResult) (h : s.WriteOk) :
    ∃ s' sent, ustreamWritePending fd s = some (s', sent) ∧ WriteStep s s' [] sent := by
  rw [ustreamWritePending]
  by_cases herr : s.writeError = true
  · rw [if_pos herr]
    exact ⟨s, [], rfl, writeStep_over herr⟩
  · rw [if_neg herr]
    have herr := Bool.eq_false_of_not_eq_true herr
    obtain ⟨hok, hcount⟩ := h herr
    obtain ⟨⟨l, err, sent⟩, hres, hsent, hmax, halive⟩ :=
      writePendingLoop_spec fd _ hok hcount (le_refl s.w.dataBytes.toNat)
    rw [hres]
    dsimp only at hsent hmax halive
    refine ⟨_, _, rfl, ⟨fun herr' => ?_, fun h => absurd (h.symm.trans herr) nofun, fun herr' => ?_,
      fun _ _ => ?_, hmax, rfl, rfl, rfl⟩⟩
    · obtain ⟨hok', hcount', -⟩ := halive herr'
      exact ⟨hok', hcount'⟩
    · rw [List.append_nil]
      exact (halive herr').2.2
    · rw [List.append_nil]
      exact hsent

/-- Freeing what waits after an error. -/
theorem ustreamStateChangeCb_spec (h : s.WriteOk) : WriteStep s (ustreamStateChangeCb s) [] [] := by
  rw [ustreamStateChangeCb]
  by_cases herr : s.writeError = true
  · rw [if_pos herr]
    exact ⟨fun hfalse => absurd (herr.symm.trans hfalse) nofun, fun _ => ⟨herr, rfl, rfl⟩,
      fun hfalse => absurd (herr.symm.trans hfalse) nofun,
      fun hfalse => absurd (herr.symm.trans hfalse) nofun, rfl, rfl, rfl, rfl⟩
  · rw [if_neg herr]
    have herr := Bool.eq_false_of_not_eq_true herr
    exact ⟨h, fun h => absurd (h.symm.trans herr) nofun, fun _ => (List.append_nil _).symm,
      fun _ h => absurd (h.symm.trans herr) nofun, rfl, rfl, rfl, rfl⟩

end M57Card.Libubox
