import M57Card.Http.Ranges
import M57Card.Libubox.StreamRuns

/-!
# A file on its way to the client

Behind the header of the answer the part of the file is sent by `file_write_cb` (`file.c`, lines
438–468), which reads as much of the file as makes 256 bytes wait in the stream. It is called at
once and then by the stream, after each attempt to send what waits. When the part has been sent,
`client_request_done` ends the answer; it takes the length of the answer as an `int`, whose sign
tells a chunked answer.

## Main definitions

* `FileClient`, `fileWriteLoop`, `fileWriteCb`, `requestDone`.
* `FileOp`, `FileClient.step` : what happens to a client that is sent a file.
* `Serves` : the invariant.

## Main results

* `Serves.fileWriteLoop` : a call of `file_write_cb`.
* `body_of_run` : what the client receives, and that the rest is still to be sent.
-/

namespace M57Card.Http

open Libubox

/-! ### The model -/

/-- What `read` gives for the file: at most `n + 1` bytes where there are any. -/
inductive ReadFile where
  | eintr
  | error
  | got (n : ℕ)
  deriving DecidableEq

/-- A pass through the loop: what `read` gives, and what the descriptor of the client and the
allocator give when the bytes are sent. -/
structure Pass where
  read : ReadFile
  fd : List WriteResult
  malloc : ℕ → Option Mem

/-- What they give when the end of a chunked answer is printed. -/
structure Print where
  fd : List WriteResult
  malloc : ℕ → Option Mem
  room : Option Mem
  tmp : Bool

/-- A client that is sent a file: its stream, `cl->range`, `cl->response_length`, and whether
`dispatch.write_cb` is set. -/
structure FileClient where
  us : StreamRun
  offset : ℕ
  length : ℕ
  responseLength : ℤ
  serving : Bool

/-- The text `0\r\n\r\n`. -/
def chunkEnd : List UInt8 := [48, 13, 10, 13, 10]

/-- What `client_request_done` prints. -/
def answerEnd (responseLength : ℤ) : List UInt8 := if responseLength < 0 then chunkEnd else []

/-- `client_request_done` and `dispatch_done`, as far as the answer is concerned. -/
def FileClient.requestDone (p : Print) (cl : FileClient) : FileClient :=
  { cl with
    us := if cl.responseLength < 0 then
        cl.us.written chunkEnd (ustreamVprintf p.fd p.malloc p.room p.tmp chunkEnd cl.us.s)
      else cl.us
    serving := false }

/-- `client_send`. -/
def FileClient.send (pass : Pass) (data : List UInt8) (cl : FileClient) : StreamRun :=
  cl.us.written data (ustreamWrite pass.fd pass.malloc data cl.us.s)

/-- The loop of `file_write_cb`, at a position in the file; nothing while it has not ended. -/
def fileWriteLoop (content : List UInt8) (p : Print) :
    List Pass → ℕ → FileClient → Option FileClient
  | [], _, cl => if 256 ≤ cl.us.s.w.dataBytes then some cl else none
  | pass :: passes, pos, cl =>
    if 256 ≤ cl.us.s.w.dataBytes then some cl
    else
      match pass.read with
      | .eintr => fileWriteLoop content p passes pos cl
      | .error => some (cl.requestDone p)
      | .got n =>
        let buf := (content.drop pos).take (min 8192 (n + 1))
        if buf = [] ∨ cl.length = 0 then some (cl.requestDone p)
        else if buf.length ≤ cl.length then
          fileWriteLoop content p passes (pos + buf.length)
            { cl with
              us := cl.send pass buf
              length := cl.length - buf.length
              offset := cl.offset + buf.length }
        else
          -- the offset is left behind, for the length is set to zero first
          fileWriteLoop content p passes (pos + buf.length)
            { cl with
              us := cl.send pass (buf.take cl.length)
              length := 0 }

/-- `client_ustream_write_cb` and `file_write_cb`. -/
def fileWriteCb (content : List UInt8) (p : Print) (passes : List Pass) (cl : FileClient) :
    Option FileClient :=
  if cl.serving then fileWriteLoop content p passes cl.offset cl else some cl

/-- The client when the header of an answer of this length has been written. -/
def FileClient.start (us : StreamRun) (contentLength offset length : ℕ) : FileClient where
  us := us
  offset := offset
  length := length
  responseLength := (contentLength : ℤ).bmod (2 ^ 32)
  serving := true

/-- What happens to a client that is sent a file. -/
inductive FileOp where
  /-- `ustream_write_pending`, which calls `file_write_cb` -/
  | writable (fd : ℕ → List WriteResult) (p : Print) (passes : List Pass)
  /-- an operation on the stream -/
  | stream (op : StreamOp)

/-- An operation; it has no result when it ends the process or is still going on. -/
def FileClient.step (content : List UInt8) (cl : FileClient) : FileOp → Option FileClient
  | .writable fd p passes =>
    if cl.us.s.writeError then some cl
    else (cl.us.step (.writePending fd)).bind fun us =>
      fileWriteCb content p passes { cl with us := us }
  | .stream op => (cl.us.step op).map fun us => { cl with us := us }

/-! ### What the environment does -/

/-- A pass for which there is memory and the file can be read. -/
structure Pass.Good (pass : Pass) : Prop where
  read : pass.read ≠ .error
  malloc : ∀ n, pass.malloc n ≠ none

/-- Printing for which there is memory. -/
structure Print.Good (p : Print) : Prop where
  malloc : ∀ n, p.malloc n ≠ none
  room : p.room ≠ none
  tmp : p.tmp = true

/-- Nobody else writes to the stream, there is memory, and the file can be read. -/
def FileOp.Good : FileOp → Prop
  | .writable _ p passes => p.Good ∧ ∀ pass ∈ passes, pass.Good
  | .stream (.write ..) => False
  | .stream (.vprintf ..) => False
  | .stream (.writePending _) => False
  | .stream _ => True

/-! ### The invariant -/

/-- The client has been sent, behind `sofar`, the part of the file from `o` to where it is now, and
the end `fin` of the answer once it is no longer served; an error cuts this off. -/
structure Serves (content sofar fin : List UInt8) (o l : ℕ) (cl : FileClient) : Prop where
  ok : cl.us.Ok true
  fin_eq : answerEnd cl.responseLength = fin
  length_le : cl.length ≤ l
  offset : cl.length ≠ 0 → cl.offset + cl.length = o + l
  alive : cl.us.s.writeError = false → cl.us.accepted =
    sofar ++ ((content.drop o).take (l - cl.length) ++
      if cl.serving then [] else fin)
  error : cl.us.accepted <+: sofar ++ ((content.drop o).take l ++ fin)
  done : cl.serving = false → cl.length = 0

variable {content sofar fin : List UInt8} {o l : ℕ} {cl : FileClient}

/-- A call that writes accepts all, unless there has been an error. -/
theorem accepted_written {us : StreamRun} {data : List UInt8} {res : Written}
    (hstep : WriteStep us.s res.s (res.accepted data) res.sent)
    (hall : us.s.writeError = false → res.ret = data.length ∨ res.ret = -1) :
    (us.written data res).accepted =
      if us.s.writeError then us.accepted else us.accepted ++ data := by
  rw [StreamRun.written]
  split_ifs with herr
  · rw [(hstep.silent herr).2.1, List.append_nil]
  · refine congrArg (us.accepted ++ ·) ?_
    rw [Written.accepted]
    rcases hall (Bool.eq_false_of_not_eq_true herr) with hret | hret
    · rw [hret, if_neg (by omega), Int.toNat_natCast, List.take_length]
    · rw [hret, if_pos (by decide)]

theorem Serves.at (h : Serves content sofar fin o l cl) (hlen : cl.length ≠ 0) :
    content.drop cl.offset = (content.drop o).drop (l - cl.length) := by
  have hoffset := h.offset hlen
  have hle := h.length_le
  rw [List.drop_drop]
  congr 1
  omega

/-- The next bytes of the part are sent. -/
theorem Serves.sent (h : Serves content sofar fin o l cl) (hserving : cl.serving = true)
    (hlen : cl.length ≠ 0) {us : StreamRun} (hok : us.Ok true) {k : ℕ} (hk : k ≤ cl.length)
    (herr : cl.us.s.writeError = true → us.s.writeError = true)
    (haccepted : us.accepted = if cl.us.s.writeError then cl.us.accepted
      else cl.us.accepted ++ (content.drop cl.offset).take k) {offset : ℕ}
    (hoffset : cl.length - k ≠ 0 → offset = cl.offset + k) :
    Serves content sofar fin o l
      { cl with us := us, length := cl.length - k, offset := offset } := by
  have hle := h.length_le
  have hmore : cl.us.s.writeError = false → us.accepted =
      sofar ++ (content.drop o).take (l - (cl.length - k)) := by
    intro hfalse
    have hsum : l - (cl.length - k) = l - cl.length + k := by omega
    rw [haccepted, hfalse, if_neg Bool.false_ne_true, h.alive hfalse, hserving, if_pos rfl,
      List.append_nil, List.append_assoc, hsum, List.take_add, h.at hlen]
  refine ⟨hok, h.fin_eq, by dsimp only; omega, fun hne => ?_, fun hfalse => ?_, ?_, fun hdone => ?_⟩
  · dsimp only at hne ⊢
    rw [hoffset hne, ← h.offset hlen]
    omega
  · dsimp only at hfalse ⊢
    rw [hserving, if_pos rfl, List.append_nil]
    refine hmore ?_
    by_contra hne
    exact Bool.false_ne_true (hfalse.symm.trans (herr (Bool.eq_true_of_not_eq_false hne)))
  · dsimp only
    cases hfalse : cl.us.s.writeError with
    | true =>
      rw [haccepted, hfalse, if_pos rfl]
      exact h.error
    | false =>
      rw [hmore hfalse, List.prefix_append_right_inj]
      exact (List.take_prefix_take_left (by omega)).trans (List.prefix_append _ _)
  · exact absurd (hdone.symm.trans hserving) Bool.false_ne_true

theorem Serves.send (h : Serves content sofar fin o l cl) (hserving : cl.serving = true)
    (hlen : cl.length ≠ 0) {pass : Pass} (hpass : pass.Good) {k : ℕ} (hk : k ≤ cl.length)
    {data : List UInt8} (hdata : data = (content.drop cl.offset).take k) {offset : ℕ}
    (hoffset : cl.length - k ≠ 0 → offset = cl.offset + k) :
    Serves content sofar fin o l
      { cl with us := cl.send pass data, length := cl.length - k, offset := offset } := by
  have hcall := @ustreamWrite_spec _ pass.malloc data pass.fd h.ok.write
  refine h.sent hserving hlen (h.ok.of_write hcall.step) hk
    (fun herr => (hcall.step.silent herr).1) ?_ hoffset
  rw [← hdata]
  exact accepted_written hcall.step fun herr =>
    hcall.all herr hpass.malloc (h.ok.wMax.le.trans (by decide))

/-- The answer is ended when the part has been sent. -/
theorem Serves.requestDone (h : Serves content sofar fin o l cl) (hserving : cl.serving = true)
    (hlen : cl.length = 0) {p : Print} (hp : p.Good) :
    Serves content sofar fin o l (cl.requestDone p) := by
  have halive := h.alive
  rw [hserving, if_pos rfl, List.append_nil, hlen, Nat.sub_zero] at halive
  rw [FileClient.requestDone]
  by_cases hneg : cl.responseLength < 0
  · have hend : fin = chunkEnd := h.fin_eq.symm.trans (if_pos hneg)
    have hspec := @ustreamVprintf_spec _ p.malloc chunkEnd p.fd p.room p.tmp h.ok.write
    have haccepted := accepted_written hspec.1 fun herr =>
      hspec.2 herr hp.malloc hp.room hp.tmp (h.ok.wMax.le.trans (by decide))
    rw [if_pos hneg]
    refine ⟨h.ok.of_write hspec.1, h.fin_eq, h.length_le, h.offset, fun hfalse => ?_, ?_,
      fun _ => hlen⟩
    · have hbefore : cl.us.s.writeError = false := by
        by_contra hne
        have herr := (hspec.1.silent (Bool.eq_true_of_not_eq_false hne)).1
        exact Bool.false_ne_true (hfalse.symm.trans herr)
      dsimp only
      rw [haccepted, hbefore, if_neg Bool.false_ne_true, if_neg Bool.false_ne_true,
        halive hbefore, hlen, Nat.sub_zero, hend, List.append_assoc]
    · dsimp only
      rw [haccepted]
      split_ifs with herr
      · exact h.error
      · have haccepted' := halive (Bool.eq_false_of_not_eq_true herr)
        exact ⟨[], by rw [List.append_nil, haccepted', hend, List.append_assoc]⟩
  · have hend : fin = [] := h.fin_eq.symm.trans (if_neg hneg)
    rw [if_neg hneg]
    refine ⟨h.ok, h.fin_eq, h.length_le, h.offset, fun hfalse => ?_, h.error, fun _ => hlen⟩
    dsimp only
    rw [halive hfalse, if_neg Bool.false_ne_true, hlen, Nat.sub_zero, hend, List.append_nil]

/-! ### A call of `file_write_cb` -/

/-- A call leaves 256 bytes waiting or has sent the part and ended the answer. -/
theorem Serves.fileWriteLoop (hfits : o + l ≤ content.length) {p : Print} (hp : p.Good)
    {passes : List Pass} (hpasses : ∀ pass ∈ passes, pass.Good) {pos : ℕ} {cl' : FileClient}
    (h : Serves content sofar fin o l cl) (hserving : cl.serving = true)
    (hpos : cl.length ≠ 0 → pos = cl.offset)
    (hres : Http.fileWriteLoop content p passes pos cl = some cl') :
    Serves content sofar fin o l cl' ∧ (cl'.serving = true → 256 ≤ cl'.us.s.w.dataBytes) := by
  induction passes generalizing pos cl with
  | nil =>
    rw [Http.fileWriteLoop] at hres
    split_ifs at hres with hfull
    obtain rfl := Option.some.inj hres
    exact ⟨h, fun _ => hfull⟩
  | cons pass passes ih =>
    rw [List.forall_mem_cons] at hpasses
    rw [Http.fileWriteLoop] at hres
    split_ifs at hres with hfull
    · obtain rfl := Option.some.inj hres
      exact ⟨h, fun _ => hfull⟩
    · cases hread : pass.read with
      | eintr =>
        simp only [hread] at hres
        exact ih hpasses.2 h hserving hpos hres
      | error => exact absurd hread hpasses.1.read
      | got n =>
        simp only [hread] at hres
        have hnil : (content.drop pos).take (min 8192 (n + 1)) = [] → cl.length = 0 := by
          intro hnil
          by_contra hlen
          have hsum := h.offset hlen
          have hzero := congrArg List.length hnil
          rw [hpos hlen, List.length_take, List.length_drop, List.length_nil] at hzero
          omega
        generalize hbuf : (content.drop pos).take (min 8192 (n + 1)) = buf at hres hnil
        split_ifs at hres with hend hle
        · obtain rfl := Option.some.inj hres
          have hlen : cl.length = 0 := hend.elim hnil id
          exact ⟨h.requestDone hserving hlen hp, fun hs => absurd hs Bool.false_ne_true⟩
        · have hlen : cl.length ≠ 0 := fun hzero => hend (Or.inr hzero)
          have htake : buf = (content.drop cl.offset).take buf.length := by
            rw [← hpos hlen]
            exact List.prefix_iff_eq_take.mp (hbuf ▸ List.take_prefix _ _)
          refine ih hpasses.2 (h.send hserving hlen hpasses.1 hle htake fun _ => rfl) hserving
            (fun _ => ?_) hres
          rw [hpos hlen]
        · have hlen : cl.length ≠ 0 := fun hzero => hend (Or.inr hzero)
          have htake : buf.take cl.length = (content.drop cl.offset).take cl.length := by
            have hlong := congrArg List.length hbuf
            rw [List.length_take] at hlong
            rw [← hbuf, List.take_take, hpos hlen]
            congr 1
            omega
          have hoffset : cl.length - cl.length ≠ 0 → cl.offset = cl.offset + cl.length :=
            fun hne => absurd (Nat.sub_self _) hne
          have hsent := h.send hserving hlen hpasses.1 le_rfl htake hoffset
          rw [Nat.sub_self] at hsent
          exact ih hpasses.2 hsent hserving (fun hne => absurd rfl hne) hres

theorem Serves.fileWriteCb (hfits : o + l ≤ content.length) {p : Print} (hp : p.Good)
    {passes : List Pass} (hpasses : ∀ pass ∈ passes, pass.Good) {cl' : FileClient}
    (h : Serves content sofar fin o l cl)
    (hres : Http.fileWriteCb content p passes cl = some cl') :
    Serves content sofar fin o l cl' ∧ (cl'.serving = true → 256 ≤ cl'.us.s.w.dataBytes) := by
  rw [Http.fileWriteCb] at hres
  split_ifs at hres with hserving
  · exact h.fileWriteLoop hfits hp hpasses hserving (fun _ => rfl) hres
  · obtain rfl := Option.some.inj hres
    exact ⟨h, fun hs => absurd hs hserving⟩

/-- A call comes to an end when `read` is interrupted only so many times. -/
theorem fileWriteLoop_isSome (p : Print) (passes : List Pass) (pos : ℕ) (cl : FileClient)
    (hlong : content.length - pos < passes.countP (·.read ≠ .eintr)) :
    (fileWriteLoop content p passes pos cl).isSome := by
  induction passes generalizing pos cl with
  | nil => exact absurd hlong (by simp)
  | cons pass passes ih =>
    rw [fileWriteLoop]
    split_ifs with hfull
    · rfl
    · cases hread : pass.read with
      | eintr =>
        rw [List.countP_cons_of_neg (by simp [hread])] at hlong
        exact ih pos cl hlong
      | error => rfl
      | got n =>
        rw [List.countP_cons_of_pos (by simp [hread])] at hlong
        dsimp only
        have hpass : ∀ buf cl', (content.drop pos).take (min 8192 (n + 1)) = buf → buf ≠ [] →
            (fileWriteLoop content p passes (pos + buf.length) cl').isSome := by
          intro buf cl' hbuf hne
          have hlen := congrArg List.length hbuf
          have hpos := List.length_pos_iff.mpr hne
          rw [List.length_take, List.length_drop] at hlen
          exact ih _ cl' (by omega)
        split_ifs with hend hle
        · rfl
        · exact hpass _ _ rfl fun hnil => hend (Or.inl hnil)
        · exact hpass _ _ rfl fun hnil => hend (Or.inl hnil)

/-! ### What happens between the calls -/

/-- The stream goes on without anything being written. -/
theorem Serves.quiet (h : Serves content sofar fin o l cl) {us : StreamRun} (hok : us.Ok true)
    (haccepted : us.accepted = cl.us.accepted)
    (herr : cl.us.s.writeError = true → us.s.writeError = true) :
    Serves content sofar fin o l { cl with us := us } := by
  refine ⟨hok, h.fin_eq, h.length_le, h.offset, fun hfalse => ?_, ?_, h.done⟩
  · dsimp only at hfalse ⊢
    rw [haccepted]
    refine h.alive ?_
    by_contra hne
    exact Bool.false_ne_true (hfalse.symm.trans (herr (Bool.eq_true_of_not_eq_false hne)))
  · dsimp only
    rw [haccepted]
    exact h.error

/-- An operation that writes nothing leaves what waits as it is, unless there has been an error. -/
theorem quiet_of_step {us us' : StreamRun} {op : StreamOp} (hok : us.Ok true)
    (hop : (FileOp.stream op).Good) (hstep : us.step op = some us') :
    us'.accepted = us.accepted ∧ (us.s.writeError = true → us'.s.writeError = true) ∧
      (us'.s.writeError = false → us'.s.w.dataBytes = us.s.w.dataBytes) := by
  have hsame : ∀ {s' : Ustream}, SameButRead us.s s' →
      (us.s.writeError = true → s'.writeError = true) ∧
        (s'.writeError = false → s'.w.dataBytes = us.s.w.dataBytes) := fun h =>
    ⟨fun herr => h.writeError.trans herr, fun _ => congrArg _ h.w⟩
  cases op with
  | fdRead res malloc =>
    obtain ⟨s', src, hres, hiter⟩ := ustreamFdReadIter_spec hok.read res malloc
    obtain rfl := Option.some.inj (hstep.symm.trans (congrArg (Option.map _) hres))
    exact ⟨rfl, hsame hiter.same⟩
  | consume len =>
    rcases lt_or_ge us.s.r.bytes.length len with hlt | hle
    · rw [StreamRun.step, ustreamConsume_eq_none hok.read hlt] at hstep
      exact absurd hstep (by simp)
    · obtain ⟨s', hs', -, -, hsame', -⟩ := ustreamConsume_spec hok.read hle
      obtain rfl := Option.some.inj (hstep.symm.trans (congrArg (Option.map _) hs'))
      exact ⟨rfl, hsame hsame'⟩
  | read buflen =>
    obtain ⟨s', hs', -, -, hsame', -⟩ :=
      ustreamRead_spec hok.read (buflen + 1) (Nat.lt_succ_self buflen)
    obtain rfl := Option.some.inj (hstep.symm.trans (congrArg (Option.map _) hs'))
    exact ⟨rfl, hsame hsame'⟩
  | setReadBlocked set =>
    obtain rfl := Option.some.inj hstep
    exact ⟨rfl, id, fun _ => rfl⟩
  | write fd malloc data => exact hop.elim
  | vprintf fd malloc room tmp text => exact hop.elim
  | writePending fd => exact hop.elim
  | fdError =>
    obtain rfl := Option.some.inj hstep
    exact ⟨rfl, fun _ => rfl, fun herr => absurd herr.symm Bool.false_ne_true⟩
  | stateChange =>
    obtain rfl := Option.some.inj hstep
    refine ⟨rfl, fun herr => ?_, fun herr => ?_⟩
    · exact ((ustreamStateChangeCb_spec hok.write).silent herr).1
    · dsimp only at herr ⊢
      rw [ustreamStateChangeCb] at herr ⊢
      split_ifs with hne
      · rfl
      · rfl

/-- While the part is being sent, bytes wait for the descriptor. -/
def Waits (cl : FileClient) : Prop :=
  cl.serving = true → cl.us.s.writeError = false → 0 < cl.us.s.w.dataBytes

theorem Serves.step (hfits : o + l ≤ content.length) (h : Serves content sofar fin o l cl)
    (hwaits : Waits cl) {op : FileOp} (hop : op.Good) {cl' : FileClient}
    (hstep : cl.step content op = some cl') : Serves content sofar fin o l cl' ∧ Waits cl' := by
  cases op with
  | writable fd p passes =>
    rw [FileClient.step] at hstep
    split_ifs at hstep with herr
    · obtain rfl := Option.some.inj hstep
      exact ⟨h, hwaits⟩
    · obtain ⟨s', sent, hs', hpending⟩ := ustreamWritePending_spec fd h.ok.write
      rw [StreamRun.step, hs'] at hstep
      have hok : ({ cl.us with s := s', sent := cl.us.sent ++ sent } : StreamRun).Ok true := by
        have hok := h.ok.of_write hpending
        rwa [List.append_nil] at hok
      obtain ⟨hserves, hfull⟩ := (h.quiet hok rfl fun herr' => absurd herr' herr).fileWriteCb hfits
        hop.1 hop.2 hstep
      exact ⟨hserves, fun hs _ => lt_of_lt_of_le (by decide) (hfull hs)⟩
  | stream op =>
    obtain ⟨us, hus, rfl⟩ := Option.map_eq_some_iff.mp hstep
    obtain ⟨haccepted, herr, hdata⟩ := quiet_of_step h.ok hop hus
    refine ⟨h.quiet (h.ok.step_some hus) haccepted herr, fun hs hfalse => ?_⟩
    dsimp only at hs hfalse ⊢
    rw [hdata hfalse]
    refine hwaits hs ?_
    by_contra hne
    exact Bool.false_ne_true (hfalse.symm.trans (herr (Bool.eq_true_of_not_eq_false hne)))

/-- The answer begins. -/
theorem serves_start {us : StreamRun} (hus : us.Ok true) (content : List UInt8) (n o l : ℕ) :
    Serves content us.accepted (answerEnd ((n : ℤ).bmod (2 ^ 32))) o l
      (FileClient.start us n o l) := by
  rw [FileClient.start]
  refine ⟨hus, ?_, le_rfl, fun _ => rfl, fun _ => ?_, List.prefix_append _ _, fun h => ?_⟩
  · dsimp only
  · simp
  · exact absurd h.symm Bool.false_ne_true

/-- **A client receives the part of the file that has been announced**: behind what has been written
before come the bytes of the part and, for a length whose `int` is negative, the end of a chunked
answer; nothing else is sent, and all of it unless the descriptor has an error. As long as the part
has not been sent there are bytes waiting for the descriptor, so that the stream will call again. A
call comes to an end unless `read` is interrupted again and again. -/
theorem body_of_run {ops₀ : List StreamOp} {us : StreamRun} {timegm : Rest.Text → Option ℤ}
    {header : Rest.Kvlist} {opens isHead : Bool} {st : Stat} {status n : ℕ} {p : Print}
    {passes : List Pass} {ops : List FileOp} {cl₀ : FileClient}
    (hus : ops₀.foldlM StreamRun.step (StreamRun.start true) = some us)
    (hreply : uhFileRequest opens timegm header isHead st = .body status n o l)
    (hsize : st.size = content.length) (hp : p.Good) (hpasses : ∀ pass ∈ passes, pass.Good)
    (hbegin : fileWriteCb content p passes (FileClient.start us n o l) = some cl₀)
    (hops : ∀ op ∈ ops, op.Good) (hrun : ops.foldlM (FileClient.step content) cl₀ = some cl) :
    ((content.drop o).take l).length = n ∧
      cl.us.sent <+:
        us.accepted ++ ((content.drop o).take l ++ answerEnd ((n : ℤ).bmod (2 ^ 32))) ∧
      (cl.us.s.writeError = false →
        (cl.serving = false → cl.us.sent ++ cl.us.s.w.bytes =
          us.accepted ++ ((content.drop o).take l ++ answerEnd ((n : ℤ).bmod (2 ^ 32)))) ∧
        (cl.serving = true → 0 < cl.us.s.w.bytes.length ∧
          cl.us.sent ++ cl.us.s.w.bytes <+: us.accepted ++ (content.drop o).take l)) ∧
      ∀ fd p passes, content.length < passes.countP (·.read ≠ .eintr) →
        (cl.step content (.writable fd p passes)).isSome := by
  obtain ⟨hfits, rfl, -, -⟩ := body_of_uhFileRequest hreply
  rw [hsize] at hfits
  have hbegun := (serves_start (StreamRun.ok_of_run hus) content n o n).fileWriteCb hfits hp hpasses
    hbegin
  have hwaits₀ : Waits cl₀ := fun hs _ => lt_of_lt_of_le (by decide) (hbegun.2 hs)
  obtain ⟨hserves, hwaits⟩ := invariant_of_foldlM
    (P := fun cl => Serves content us.accepted (answerEnd ((n : ℤ).bmod (2 ^ 32))) o n cl ∧
      Waits cl)
    (fun _ _ _ hs hop hstep => hs.1.step hfits hs.2 hop hstep) hops ⟨hbegun.1, hwaits₀⟩ hrun
  refine ⟨?_, hserves.ok.sent.trans hserves.error, fun herr => ⟨fun hdone => ?_, fun hs => ?_⟩,
    fun fd p passes hlong => ?_⟩
  · rw [List.length_take, List.length_drop]
    omega
  · rw [hserves.ok.alive herr, hserves.alive herr, hserves.done hdone, hdone, Nat.sub_zero,
      if_neg Bool.false_ne_true]
  · have hcount := (hserves.ok.write herr).2
    have hpos := hwaits hs herr
    refine ⟨by omega, ?_⟩
    rw [hserves.ok.alive herr, hserves.alive herr, hs, if_pos rfl, List.append_nil,
      List.prefix_append_right_inj]
    exact List.take_prefix_take_left (Nat.sub_le _ _)
  · rw [FileClient.step]
    split_ifs with herr
    · rfl
    · obtain ⟨s', sent, hs', -⟩ := ustreamWritePending_spec fd hserves.ok.write
      rw [StreamRun.step, hs', Option.map_some, Option.bind_some, Http.fileWriteCb]
      split_ifs with hserving
      · exact fileWriteLoop_isSome _ _ _ _ (by omega)
      · rfl

/-- A file of three bytes; the descriptor takes two of them at first, and the last one later. -/
theorem body_of_run_three : ∃ cl₀ cl,
    fileWriteCb [1, 2, 3] ⟨[], fun _ => some fun _ => 7, some fun _ => 7, true⟩
        [⟨.eintr, [], fun _ => some fun _ => 7⟩,
          ⟨.got 99, [.took 2, .eagain], fun _ => some fun _ => 7⟩,
          ⟨.got 0, [], fun _ => some fun _ => 7⟩]
        (FileClient.start (StreamRun.start true) 3 0 3) = some cl₀ ∧
      [FileOp.writable (fun _ => [.took 1])
        ⟨[], fun _ => some fun _ => 7, some fun _ => 7, true⟩ []].foldlM
          (FileClient.step [1, 2, 3]) cl₀ = some cl ∧
      cl.serving = false ∧ cl.us.sent ++ cl.us.s.w.bytes = [1, 2, 3] ∧ cl.us.s.w.bytes = [] := by
  have hus : ([] : List StreamOp).foldlM StreamRun.step (StreamRun.start true) =
      some (StreamRun.start true) := rfl
  have hreply : uhFileRequest true (fun _ => none) (fun _ => none) false ⟨0o100644, 3, 0⟩ =
      .body 200 3 0 3 := by decide
  have hsize : (⟨0o100644, 3, 0⟩ : Stat).size = ([1, 2, 3] : List UInt8).length := rfl
  have hp : (⟨[], fun _ => some fun _ => 7, some fun _ => 7, true⟩ : Print).Good :=
    ⟨fun _ => Option.some_ne_none _, Option.some_ne_none _, rfl⟩
  have hgood : ∀ (read : ReadFile) (fd : List WriteResult), read ≠ .error →
      (⟨read, fd, fun _ => some fun _ => 7⟩ : Pass).Good := fun _ _ h =>
    ⟨h, fun _ => Option.some_ne_none _⟩
  have hpasses : ∀ pass ∈ ([⟨.eintr, [], fun _ => some fun _ => 7⟩,
      ⟨.got 99, [.took 2, .eagain], fun _ => some fun _ => 7⟩,
      ⟨.got 0, [], fun _ => some fun _ => 7⟩] : List Pass), pass.Good := by
    simp only [List.forall_mem_cons]
    exact ⟨hgood _ _ (by decide), hgood _ _ (by decide), hgood _ _ (by decide), by simp⟩
  have hops : ∀ op ∈ [FileOp.writable (fun _ => [.took 1])
      ⟨[], fun _ => some fun _ => 7, some fun _ => 7, true⟩ []], op.Good :=
    List.forall_mem_singleton.mpr ⟨hp, by simp⟩
  obtain ⟨-, -, hdone, -⟩ := body_of_run hus hreply hsize hp hpasses rfl hops rfl
  exact ⟨_, _, rfl, rfl, rfl, (hdone rfl).1 rfl, rfl⟩

end M57Card.Http
