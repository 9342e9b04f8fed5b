import M57Card.Libubox.StreamRuns
import M57Card.Receive.Frames

/-!
# Frames through the buffer of a stream

The receive loops look at the unconsumed bytes of a connection through `ustream_get_read_buf` and
take them with `ustream_consume`. Here the loops run beside the stream itself: every iteration
consumes from the buffer of the stream what the loops take from the list of unconsumed bytes, and
the parser writes the code of a key tool frame into that buffer. The loops never consume more than
the buffer shows, so the stream refines the list, and a connection is bounded by the 32768 bytes of
the buffer.

The bound decides what a connection can receive: it gets through every list of well-formed frames,
but a data frame that is longer than the buffer is never complete, and nothing is received behind
it.

## Main definitions

* `stepBuf`, `stepConsumed`, `streamStep` : an iteration of the loops on the stream.
* `Shows` : the stream holds the unconsumed bytes of the connection.
* `ReadEvent`, `ReadRun` : reads of the descriptor with their callbacks.

## Main results

* `shows_streamStep` : an iteration on the stream follows the one on the list.
* `readAll_of_readRun` : a run on a stream is a run of the loops.
* `readRun_frames` : well-formed frames are received, and never block the connection.
* `readRun_oversized` : behind the header of a longer data frame nothing is received any more.
-/

namespace M57Card.Net

open Libubox StepMachine

variable {σ : Type}

/-! ### The loops on a stream -/

section Loops

variable (srv : NetTcpServer σ)

/-- The unconsumed bytes as an iteration leaves them in the buffer, before it consumes some: only
the parser writes into the buffer. -/
def stepBuf (m : Machine σ) : List UInt8 :=
  match m.pc with
  | .read =>
      if m.cl.us ≠ [] ∧ m.cl.state = .header then
        (srv.onHeader m.cl.us m.cl.state m.cl.request m.cl.conn.proto).buf
      else
        m.cl.us
  | _ => m.cl.us

/-- The number of bytes that an iteration gives to `ustream_consume`. -/
def stepConsumed (m : Machine σ) : ℕ :=
  match m.pc with
  | .read =>
      if m.cl.us ≠ [] ∧ m.cl.state = .header then
        let r := srv.onHeader m.cl.us m.cl.state m.cl.request m.cl.conn.proto
        if r.stat = false then m.cl.us.length
        else if r.request.dataState = .wait then 0 else r.headLen
      else
        0
  | .poll contentLength =>
      if m.cl.us ≠ [] ∧ contentLength ≠ 0 then
        (tcpLoadData srv m.cl (m.cl.us.take (min contentLength m.cl.us.length))).1
      else
        0
  | _ => 0

/-- The bytes in the first buffer are overwritten, from the pointer that `ustream_get_read_buf`
gives. -/
def overwrite (buf : List UInt8) (s : Ustream) : Ustream :=
  match s.r.chain with
  | [] => s
  | b :: _ =>
      { s with r := s.r.setHead { b with mem := b.mem.write b.data (Mem.ofList buf) 0 buf.length } }

/-- An iteration of the loops, on the stream; there is no result when it ends the process. -/
def streamStep (s : Ustream) (m : Machine σ) : Option Ustream :=
  Libubox.ustreamConsume (stepConsumed srv m) (overwrite (stepBuf srv m) s)

/-- Iterations of the loops, with the stream beside them. -/
def streamSteps : ℕ → Ustream → Machine σ → Option (Ustream × Machine σ)
  | 0, s, m => some (s, m)
  | n + 1, s, m => (streamStep srv s m).bind fun s' => streamSteps n s' (step srv m)

/-! ### What an iteration takes -/

theorem us_tcpClientHeaderCb (cl : NetTcpClient σ) :
    let r := srv.onHeader cl.us cl.state cl.request cl.conn.proto
    (tcpClientHeaderCb srv cl).2.us = r.buf.drop
      (if r.stat = false then cl.us.length
        else if r.request.dataState = .wait then 0 else r.headLen) := by
  dsimp only
  rw [tcpClientHeaderCb]
  dsimp only
  split_ifs with hstat hwait
  · rfl
  · rw [hwait]
    rfl
  · split
    · rename_i h
      exact absurd h hwait
    · rfl
    · rfl

theorem us_pollEnd (n : ℕ) (cl : NetTcpClient σ) : (pollEnd srv n cl).cl.us = cl.us := by
  rw [pollEnd]
  split
  · rw [tcpPostDone]
    dsimp only
    split <;> rfl
  · rfl

theorem us_tcpLoadData (cl : NetTcpClient σ) (data : List UInt8) :
    (tcpLoadData srv cl data).2.us = cl.us ∧ (tcpLoadData srv cl data).1 ≤ data.length := by
  rw [tcpLoadData]
  dsimp only
  split
  · exact ⟨rfl, Nat.zero_le _⟩
  · exact ⟨rfl, le_rfl⟩

theorem us_readIter {cl : NetTcpClient σ} (h : ¬ (cl.us ≠ [] ∧ cl.state = .header)) :
    (readIter srv cl).cl.us = cl.us := by
  rw [readIter]
  by_cases hus : cl.us = []
  · rw [if_pos hus]
  · rw [if_neg hus]
    split
    · rename_i hst
      exact absurd ⟨hus, hst⟩ h
    · rw [pollEnter]
      split <;> rfl
    · rfl

theorem us_pollIter {n : ℕ} {cl : NetTcpClient σ} (h : ¬ (cl.us ≠ [] ∧ n ≠ 0)) :
    (pollIter srv n cl).cl.us = cl.us := by
  rw [pollIter]
  split_ifs with hus hn hn
  · rfl
  · exact us_pollEnd srv n cl
  · exact absurd ⟨hus, hn⟩ h
  · exact us_pollEnd srv n cl

/-- **An iteration takes from the unconsumed bytes what it consumes.** -/
theorem step_us (m : Machine σ) :
    (step srv m).cl.us = (stepBuf srv m).drop (stepConsumed srv m) := by
  obtain ⟨pc, cl⟩ := m
  cases pc with
  | read =>
    rw [step_read, stepBuf, stepConsumed]
    dsimp only
    by_cases h : cl.us ≠ [] ∧ cl.state = .header
    · rw [if_pos h, if_pos h, ← us_tcpClientHeaderCb srv cl, readIter, if_neg h.1, h.2]
    · rw [if_neg h, if_neg h]
      exact us_readIter srv h
  | poll n =>
    rw [step_poll, stepBuf, stepConsumed]
    dsimp only
    by_cases h : cl.us ≠ [] ∧ n ≠ 0
    · rw [if_pos h, pollIter, if_neg h.1, if_pos h.2]
      exact congrArg (List.drop _) (us_tcpLoadData srv cl _).1
    · rw [if_neg h]
      exact us_pollIter srv h
  | ret => rfl
  | exit => rfl
/-- The parser of a server looks at no more than it is shown: it keeps the length of the buffer and
takes no more than that. -/
def WithinBuffer : Prop :=
  ∀ buf state req c, (srv.onHeader buf state req c).buf.length = buf.length ∧
    (srv.onHeader buf state req c).headLen ≤ buf.length

variable {srv}

theorem length_stepBuf (h : WithinBuffer srv) (m : Machine σ) :
    (stepBuf srv m).length = m.cl.us.length := by
  rw [stepBuf]
  split
  · split
    · exact (h _ _ _ _).1
    · rfl
  · rfl

theorem stepConsumed_le (h : WithinBuffer srv) (m : Machine σ) :
    stepConsumed srv m ≤ m.cl.us.length := by
  rw [stepConsumed]
  split
  · split
    · dsimp only
      split_ifs
      · exact le_rfl
      · exact Nat.zero_le _
      · exact (h _ _ _ _).2
    · exact Nat.zero_le _
  · split
    · exact (us_tcpLoadData srv _ _).2.trans (List.length_take_le' _ _)
    · exact Nat.zero_le _
  · exact Nat.zero_le _

end Loops

/-! ### The stream follows the list -/

/-- The stream holds the unconsumed bytes of a connection, in one buffer; it is blocked only when
that is full. -/
structure Shows (s : Ustream) (cl : NetTcpClient σ) : Prop where
  ok : s.ReadOk
  maxBuffers : s.r.maxBuffers = 1
  bufferLen : s.r.bufferLen = 32768
  user : s.blockedUser = false
  full : s.blockedFull = true → s.r.bytes.length = 32768
  us : s.r.bytes = cl.us

variable {srv : NetTcpServer σ} {s : Ustream} {cl : NetTcpClient σ}

/-- A connection sees its unconsumed bytes, all of them. -/
theorem Shows.getReadBuf (h : Shows s cl) : ustreamGetReadBuf s = cl.us :=
  (ustreamGetReadBuf_eq h.ok h.maxBuffers).trans h.us

theorem Shows.length_le (h : Shows s cl) : cl.us.length ≤ 32768 := by
  rw [← h.us, ← h.bufferLen]
  exact h.ok.ok.length_bytes_le h.maxBuffers

/-- A stream of which the bytes are overwritten by as many others. -/
theorem shows_overwrite (h : Shows s cl) {buf : List UInt8} (hlen : buf.length = cl.us.length) :
    Shows (overwrite buf s) { cl with us := buf } := by
  have hlength : s.r.bytes.length = buf.length := by rw [h.us, hlen]
  rw [overwrite]
  rcases h.ok.ok.cases_one h.maxBuffers with hc | ⟨b, hr, hc⟩
  · have hnil : s.r.bytes = [] := by
      rw [UstreamBufList.bytes, hc]
      rfl
    rw [hnil, List.length_nil] at hlength
    obtain rfl := List.eq_nil_of_length_eq_zero hlength.symm
    rw [hc]
    exact ⟨h.ok, h.maxBuffers, h.bufferLen, h.user, h.full, hnil⟩
  · have hb := (h.ok.ok.ok b (hc ▸ List.mem_cons_self)).1
    have hle := hb.le
    have hbytes : s.r.bytes = b.bytes := by
      rw [UstreamBufList.bytes, hc, List.flatMap_singleton]
    rw [hbytes, UstreamBuf.length_bytes] at hlength
    generalize hb' : ({ b with mem := b.mem.write b.data (Mem.ofList buf) 0 buf.length } :
      UstreamBuf) = b'
    have hnew : b'.bytes = buf := by
      rw [← hb', UstreamBuf.bytes]
      dsimp only
      rw [hlength, Mem.slice_write, Mem.slice_ofList]
    have hok : b'.Ok s.stringData := by
      rw [← hb']
      refine ⟨hb.empty, hb.tail_le, hb.len_pos, fun hstring => ?_⟩
      refine (if_neg ?_).trans (hb.terminated hstring)
      dsimp only
      omega
    have hset := h.ok.ok.setHead hc hok (by rw [← hb']) (by rw [← hb'])
    have hchain := UstreamBufList.chain_setHead hc b'
    have hall : (s.r.setHead b').bytes = buf := by
      rw [UstreamBufList.bytes, hchain, List.flatMap_singleton, hnew]
    rw [hc]
    dsimp only
    rw [hb']
    refine ⟨⟨hset, ?_⟩, h.maxBuffers, h.bufferLen, h.user, fun hfull => ?_, hall⟩
    · change s.r.dataBytes = ((s.r.setHead b').bytes.length : ℤ)
      rw [hall, h.ok.dataBytes, h.us, hlen]
    · change (s.r.setHead b').bytes.length = 32768
      rw [hall, hlen, ← h.us]
      exact h.full hfull

/-- Bytes that are consumed. -/
theorem shows_consume (h : Shows s cl) {n : ℕ} (hn : n ≤ cl.us.length) {cl' : NetTcpClient σ}
    (hus : cl'.us = cl.us.drop n) :
    ∃ s', Libubox.ustreamConsume n s = some s' ∧ Shows s' cl' := by
  rw [← h.us] at hn hus
  obtain ⟨s', hs', hok, hbytes, hsame, hblocked⟩ := ustreamConsume_spec h.ok hn
  refine ⟨s', hs', hok, hsame.maxBuffers.trans h.maxBuffers, hsame.bufferLen.trans h.bufferLen,
    hsame.blockedUser.trans h.user, fun hfull => ?_, hbytes.trans hus.symm⟩
  rcases hblocked with rfl | hfalse
  · exact h.full hfull
  · exact absurd (hfull.symm.trans hfalse) nofun

/-- **An iteration on the stream follows the one on the list.** -/
theorem shows_streamStep (hsrv : WithinBuffer srv) {m : Machine σ} (h : Shows s m.cl) :
    ∃ s', streamStep srv s m = some s' ∧ Shows s' (step srv m).cl := by
  have hlen := length_stepBuf hsrv m
  exact shows_consume (shows_overwrite h hlen) ((stepConsumed_le hsrv m).trans hlen.ge)
    (step_us srv m)

theorem shows_streamSteps (hsrv : WithinBuffer srv) (n : ℕ) {m : Machine σ} (h : Shows s m.cl) :
    ∃ s', streamSteps srv n s m = some (s', (step srv)^[n] m) ∧
      Shows s' ((step srv)^[n] m).cl := by
  induction n generalizing s m with
  | zero => exact ⟨s, rfl, h⟩
  | succ n ih =>
    obtain ⟨s₁, hs₁, h₁⟩ := shows_streamStep hsrv h
    rw [streamSteps, hs₁]
    exact ih h₁

/-! ### Runs of reads -/

section Runs

variable (srv)

/-- A read of the descriptor by a connection between two callbacks: an iteration of the reading
loop, for which a buffer is got, and the callback when bytes `src` have been read. -/
inductive ReadEvent : Ustream × Machine σ → List UInt8 → Ustream × Machine σ → Prop where
  | none {s s' : Ustream} {cl : NetTcpClient σ} {res : ReadResult} {mem : Mem}
      (hread : ustreamFdReadIter res (some mem) s = some (s', [])) :
      ReadEvent (s, ⟨.ret, cl⟩) [] (s', ⟨.ret, cl⟩)
  | some {s s₁ s' : Ustream} {cl : NetTcpClient σ} {m : Machine σ} {res : ReadResult} {mem : Mem}
      {src : List UInt8} (hread : ustreamFdReadIter res (some mem) s = some (s₁, src))
      (hsrc : src ≠ []) {n : ℕ} (hsteps : streamSteps srv n s₁ (recv src cl) = some (s', m))
      (hfin : m.IsFinal) : ReadEvent (s, ⟨.ret, cl⟩) src (s', m)

/-- Successive reads, by which the pieces `chunks` have been read. -/
inductive ReadRun (start : Ustream × Machine σ) :
    List (List UInt8) → Ustream × Machine σ → Prop where
  | nil : ReadRun start [] start
  | snoc {chunks : List (List UInt8)} {chunk : List UInt8} {p p' : Ustream × Machine σ}
      (hrun : ReadRun start chunks p) (hevent : ReadEvent srv p chunk p') :
      ReadRun start (chunks ++ [chunk]) p'

variable {srv}

/-- The bytes that an iteration of the reading loop gets are shown behind the others. -/
theorem shows_read {res : ReadResult} {mem : Mem} {src : List UInt8} {s' : Ustream} (h : Shows s cl)
    (hread : ustreamFdReadIter res (Option.some mem) s = Option.some (s', src)) :
    Shows s' { cl with us := cl.us ++ src } := by
  obtain ⟨s₁, src₁, hs₁, hiter⟩ := ustreamFdReadIter_spec h.ok res (Option.some mem)
  obtain ⟨rfl, rfl⟩ := Prod.mk.inj (Option.some.inj (hs₁.symm.trans hread))
  refine ⟨hiter.ok, hiter.same.maxBuffers.trans h.maxBuffers,
    hiter.same.bufferLen.trans h.bufferLen, hiter.same.blockedUser.trans h.user, fun hfull => ?_,
    ?_⟩
  · rcases hiter.blocked h.maxBuffers (Option.some_ne_none mem) hfull with rfl | hlength
    · exact h.full hfull
    · exact hlength.trans (hiter.same.bufferLen.trans h.bufferLen)
  · rw [hiter.bytes, h.us]

/-- A read goes through the callback of the loops on the list. -/
theorem ReadEvent.reaches (hsrv : WithinBuffer srv) {p p' : Ustream × Machine σ}
    {chunk : List UInt8} (h : Shows p.1 p.2.cl) (hevent : ReadEvent srv p chunk p') :
    Shows p'.1 p'.2.cl ∧ p.2.pc = .ret ∧
      (chunk = [] ∧ p'.2 = p.2 ∨ chunk ≠ [] ∧ p'.2.IsFinal ∧
        (recv chunk p.2.cl).cl.us.length ≤ 32768 ∧
        Reaches (step srv) (recv chunk p.2.cl) p'.2) := by
  cases hevent with
  | none hread =>
    have hshows := shows_read h hread
    exact ⟨⟨hshows.ok, hshows.maxBuffers, hshows.bufferLen, hshows.user, hshows.full,
      hshows.us.trans (List.append_nil _)⟩, rfl, .inl ⟨rfl, rfl⟩⟩
  | @some s s₁ s' cl m res mem src hread hsrc n hsteps hfin =>
    have hshows : Shows s₁ (recv chunk cl).cl := shows_read h hread
    obtain ⟨s₂, hs₂, hend⟩ := shows_streamSteps hsrv n hshows
    obtain ⟨rfl, rfl⟩ := Prod.mk.inj (Option.some.inj (hs₂.symm.trans hsteps))
    exact ⟨hend, rfl, .inr ⟨hsrc, hfin, hshows.length_le, n, rfl⟩⟩

/-- Reads that are followed by one more. -/
theorem readAll_snoc {chunks : List (List UInt8)} {chunk : List UInt8} {cl cl' : NetTcpClient σ}
    {m : Machine σ} (h : ReadAll srv chunks cl ⟨.ret, cl'⟩)
    (hreach : Reaches (step srv) (recv chunk cl') m) (hfin : m.IsFinal) :
    ReadAll srv (chunks ++ [chunk]) cl m := by
  induction chunks generalizing cl with
  | nil =>
    obtain rfl := (Machine.mk.inj h).2
    refine ⟨m, hreach, ?_⟩
    rcases hfin with hret | hexit
    · exact .inr ⟨hret, show m = ⟨.ret, m.cl⟩ by rw [← hret]⟩
    · exact .inl ⟨hexit, rfl⟩
  | cons c chunks ih =>
    obtain ⟨m₁, hm₁, ⟨hpc, rfl⟩ | ⟨hpc, hrest⟩⟩ := h
    · exact absurd hpc nofun
    · exact ⟨m₁, hm₁, .inr ⟨hpc, ih hrest⟩⟩

/-- **A run on a stream is a run of the loops**: what the reads have given to the stream has gone
through the callbacks piece by piece, and the stream holds what they have left. -/
theorem readAll_of_readRun (hsrv : WithinBuffer srv) {chunks : List (List UInt8)}
    {p : Ustream × Machine σ} (h : Shows s cl) (hrun : ReadRun srv (s, ⟨.ret, cl⟩) chunks p) :
    Shows p.1 p.2.cl ∧ ReadAll srv (chunks.filter (· ≠ [])) cl p.2 := by
  induction hrun with
  | nil => exact ⟨h, rfl⟩
  | @snoc chunks chunk p p' hrun hevent ih =>
    obtain ⟨hshows, hall⟩ := ih
    obtain ⟨hshows', hpc, hcases⟩ := hevent.reaches hsrv hshows
    refine ⟨hshows', ?_⟩
    rw [List.filter_append]
    rcases hcases with ⟨rfl, heq⟩ | ⟨hne, hfin, -, hreach⟩
    · rw [heq]
      exact (congrArg (ReadAll srv · cl p.2) (List.append_nil _)).mpr hall
    · have hone : [chunk].filter (fun x => decide (x ≠ [])) = [chunk] :=
        List.filter_eq_self.mpr (List.forall_mem_singleton.mpr (decide_eq_true hne))
      rw [hone]
      obtain ⟨s', pc, cl'⟩ := p
      obtain rfl : pc = .ret := hpc
      exact readAll_snoc hall hreach hfin

end Runs

end M57Card.Net

namespace M57Card.M57

open Net Bytes StepMachine Libubox

/-- The parser of the protocol stays within the buffer. -/
theorem withinBuffer_m57Server : WithinBuffer m57Server := by
  intro buf state req c
  have hspec := headerKind_spec buf
  have hparse := m57ParseHeader_eq buf state req c
  change (m57ParseHeader buf state req c).buf.length = buf.length ∧
    (m57ParseHeader buf state req c).headLen ≤ buf.length
  cases hk : headerKind buf with
  | wait =>
    rw [hk] at hparse
    obtain ⟨req', -, hparse⟩ := hparse
    rw [hparse]
    exact ⟨rfl, le_rfl⟩
  | err =>
    rw [hk] at hparse
    obtain ⟨req', hparse⟩ := hparse
    rw [hparse]
    exact ⟨rfl, le_rfl⟩
  | cmd n =>
    rw [hk] at hparse hspec
    rw [hparse]
    exact ⟨rfl, hspec.1⟩
  | keytool code n =>
    rw [hk] at hparse hspec
    obtain ⟨hle, hlong, -⟩ := hspec
    rw [hparse]
    refine ⟨?_, by dsimp only; omega⟩
    rw [memcpy, List.length_append, List.length_append, List.length_take, List.length_drop,
      length_le16]
    omega
  | data len =>
    rw [hk] at hparse hspec
    rw [hparse]
    exact ⟨rfl, hspec.2.1⟩

/-! ### Well-formed frames -/

variable {s : Ustream} {chunks : List (List UInt8)} {p : Ustream × Machine Ctx}

/-- A stream that has just been set up, with a fresh connection. -/
theorem shows_start (stringData : Bool) (c : Ctx) :
    Shows (StreamRun.start stringData).s (.fresh c : NetTcpClient Ctx) := by
  have hok := StreamRun.ok_start stringData
  exact ⟨hok.read, hok.rMax, hok.rLen, rfl, nofun, rfl⟩

theorem Awaits.isFinal {m : Machine Ctx} {rem : List UInt8} {final : Ctx}
    (h : Awaits m rem final) : m.IsFinal := h.elim (fun h => .inl h.1) fun h => .inr h.1

/-- Behind every run of reads the connection waits for the rest of the frames. -/
theorem awaits_of_readRun {cl : NetTcpClient Ctx} {final : Ctx} (h : Shows s cl)
    (hlive : cl.conn.proto.host.exited = false) {rem : List UInt8}
    (hexp : Expecting cl (chunks.flatten ++ rem) final)
    (hrun : ReadRun m57Server (s, ⟨.ret, cl⟩) chunks p) : Awaits p.2 rem final := by
  induction hrun generalizing rem with
  | nil => exact .inl ⟨rfl, hlive, hexp⟩
  | @snoc chunks chunk p p' hrun hevent ih =>
    have hshows := (readAll_of_readRun withinBuffer_m57Server h hrun).1
    rw [List.flatten_append, List.flatten_singleton, List.append_assoc] at hexp
    obtain ⟨-, hpc, hcases⟩ := hevent.reaches withinBuffer_m57Server hshows
    rcases ih hexp with ⟨-, hlive, hexp⟩ | ⟨hexit, -⟩
    · rcases hcases with ⟨rfl, heq⟩ | ⟨-, hfin, -, hreach⟩
      · rw [heq]
        exact .inl ⟨hpc, hlive, hexp⟩
      · obtain ⟨m, hm, hawaits⟩ := expecting_recv hexp hlive
        obtain rfl := hreach.unique hm (step_of_isFinal _ hfin) (step_of_isFinal _ hawaits.isFinal)
        exact hawaits
    · exact absurd (hpc.symm.trans hexit) nofun

/-- A connection that waits for more of well-formed frames has room for them. -/
theorem Expecting.length_lt {cl : NetTcpClient Ctx} {rem : List UInt8} {final : Ctx}
    (h : Expecting cl rem final) : cl.us.length < 32768 := by
  cases h with
  | body got b fs hcoll hus =>
    rw [hus]
    exact Nat.succ_pos _
  | idle fs hidle hwait hfs hrem =>
    have hspec := headerKind_spec cl.us
    rw [hwait] at hspec
    rcases hspec with hshort | ⟨htype, hlt⟩
    · exact hshort.trans (by decide)
    · by_cases h8 : cl.us.length < 8
      · omega
      cases fs with
      | nil =>
        rw [(List.append_eq_nil_iff.mp hrem).1] at h8
        exact absurd (Nat.succ_pos 7) h8
      | cons f fs =>
        have hf := hfs f List.mem_cons_self
        have htake : cl.us.take 8 = f.take 8 := by
          have hall := congrArg (List.take 8) hrem
          rwa [List.flatten_cons, List.take_append_of_le_length (by omega),
            List.take_append_of_le_length hf.eight_le] at hall
        obtain ⟨-, htype', hlen⟩ := hf.fields htake
        rcases hf.kind with hcmd | hdata
        · rw [htype', hcmd.1] at htype
          exact absurd htype (by decide)
        · omega

/-- **Well-formed frames are received through the stream, and never block it.** Behind every run of
reads that has given a part of the frames to the stream, the stream holds the unconsumed bytes and
the process has ended with one of the frames, or the connection is open: when the frames are
complete they have had their effects and nothing is left, and otherwise the next read takes some of
the bytes that are missing, and its callback returns. -/
theorem readRun_frames {fs : List (List UInt8)} (hfs : ∀ f ∈ fs, IsFrame f) {c : Ctx}
    (hlive : c.host.exited = false) {stringData : Bool} {rem : List UInt8}
    (hrun : ReadRun m57Server ((StreamRun.start stringData).s, ⟨.ret, .fresh c⟩) chunks p)
    (hrem : chunks.flatten ++ rem = fs.flatten) :
    Shows p.1 p.2.cl ∧
      (p.2.pc = .exit ∧ p.2.cl.conn.proto = runFrames fs c ∧
          (runFrames fs c).host.exited = true ∨
        p.2.pc = .ret ∧
          (rem = [] → p.2.cl.us = [] ∧ p.2.cl.IsIdle ∧ p.2.cl.conn.proto = runFrames fs c) ∧
          (rem ≠ [] →
            ∃ chunk p', ReadEvent m57Server p chunk p' ∧ chunk ≠ [] ∧ chunk <+: rem)) := by
  have hstart := shows_start stringData c
  have hshows := (readAll_of_readRun withinBuffer_m57Server hstart hrun).1
  have hexp : Expecting (.fresh c) (chunks.flatten ++ rem) (runFrames fs c) :=
    .idle fs (isIdle_fresh c) rfl hfs hrem rfl
  refine ⟨hshows, ?_⟩
  rcases awaits_of_readRun hstart hlive hexp hrun with ⟨hpc, hlive, hexp⟩ | hexit
  · refine .inr ⟨hpc, fun hnil => ?_, fun hne => ?_⟩
    · subst hnil
      obtain ⟨hidle, hus, hproto⟩ := hexp.of_nil
      exact ⟨hus, hidle, hproto⟩
    · obtain ⟨b, bytes, rfl⟩ := List.exists_cons_of_ne_nil hne
      have hroom := hexp.length_lt
      obtain ⟨s, m⟩ := p
      obtain ⟨pc, cl⟩ := m
      obtain rfl : pc = .ret := hpc
      dsimp only at hroom hshows hlive hexp
      rw [← hshows.us] at hroom
      obtain ⟨s₁, src, hread, hiter⟩ :=
        ustreamFdReadIter_spec hshows.ok (.got (b :: bytes)) (some fun _ => 0)
      have hopen : s.blockedFull = false := by
        by_contra hblocked
        have := hshows.full (Bool.eq_true_of_not_eq_false hblocked)
        omega
      have hsrc := hiter.progress hshows.maxBuffers (Option.some_ne_none _) hshows.user hopen
        (by rw [hshows.bufferLen]; omega) b bytes rfl
      obtain ⟨rest, hrest⟩ := hiter.offered _ rfl
      rw [← hrest] at hexp
      obtain ⟨m, ⟨n, hn⟩, hawaits⟩ := expecting_recv hexp hlive
      obtain ⟨s₂, hsteps, -⟩ :=
        @shows_streamSteps _ m57Server s₁ withinBuffer_m57Server n (recv src cl)
          (shows_read hshows hread)
      rw [hn] at hsteps
      exact ⟨src, (s₂, m), .some hread hsrc hsteps hawaits.isFinal, hsrc, rest, hrest⟩
  · exact .inl hexit

/-- The first five bytes of a heartbeat are read, and then more of it. -/
theorem readRun_frames_heartbeat : ∃ p,
    ReadRun m57Server
        ((StreamRun.start true).s, ⟨.ret, .fresh (.start .reliable fun _ => false)⟩)
        [[0x51, 0x57, 0, 2, 16]] p ∧
      ∃ chunk p', ReadEvent m57Server p chunk p' ∧ chunk ≠ [] ∧
        chunk <+: [0, 0, 0, 0, 0, 8, 0, 0, 0, 0, 0] := by
  have hrun := ReadRun.snoc
    (@ReadRun.nil _ m57Server
      ((StreamRun.start true).s, ⟨.ret, .fresh (.start .reliable fun _ => false)⟩))
    (@ReadEvent.some _ m57Server _ _ _ _ _ (.got [0x51, 0x57, 0, 2, 16]) (fun _ => 0) _ rfl
      (List.cons_ne_nil _ _) 1 rfl (.inl rfl))
  have hframe : IsFrame [0x51, 0x57, 0, 2, 16, 0, 0, 0, 0, 0, 8, 0, 0, 0, 0, 0] := by decide
  obtain ⟨-, ⟨hexit, -⟩ | ⟨-, -, hmore⟩⟩ := @readRun_frames _ _
    [[0x51, 0x57, 0, 2, 16, 0, 0, 0, 0, 0, 8, 0, 0, 0, 0, 0]]
    (List.forall_mem_singleton.mpr hframe) _ rfl true [0, 0, 0, 0, 0, 8, 0, 0, 0, 0, 0] hrun rfl
  · exact absurd hexit nofun
  · exact ⟨_, hrun, hmore (List.cons_ne_nil _ _)⟩

/-! ### A longer data frame -/

/-- The header of a data frame that is longer than the buffer is waited for, however much of it is
there. -/
theorem headerKind_oversized {input b : List UInt8} (hsync : u16 input 0 = M57_SYNC_HEADER)
    (htype : byteAt input 3 % 16 = M57_DATA_TYPE) (hlen : 32768 < u16 input 4)
    (hpre : b <+: input) (hb : b.length ≤ 32768) : headerKind b = .wait := by
  by_cases h8 : b.length < HEADER_LEN
  · exact if_pos h8
  have htake := List.prefix_iff_eq_take.mp hpre
  have hsync' : u16 b 0 = M57_SYNC_HEADER := by
    rw [htake, u16_take (by unfold HEADER_LEN at h8; omega), hsync]
  have htype' : byteAt b 3 % 16 = M57_DATA_TYPE := by
    rw [htake, byteAt_take (by unfold HEADER_LEN at h8; omega), htype]
  have hlen' : u16 b 4 = u16 input 4 := by
    rw [htake, u16_take (by unfold HEADER_LEN at h8; omega)]
  have hne : ¬ M57_DATA_TYPE = M57_CMD_TYPE := by decide
  have hlt : b.length < u16 input 4 := by omega
  simp only [headerKind, h8, hsync', htype', hlen', hlt, hne, if_true, if_false, ne_eq,
    not_true_eq_false]

/-- **A data frame longer than the buffer is never received.** When an open connection, with nothing
pending, is sent the header of a data frame of more than 32768 bytes, then behind every run of reads
the protocol has seen nothing of it nor of what follows it, all bytes that have been read are still
in the stream, and these are never more than the buffer holds. -/
theorem readRun_oversized {cl : NetTcpClient Ctx} (h : Shows s cl) (hidle : cl.IsIdle)
    (hus : cl.us = []) {input : List UInt8} (hsync : u16 input 0 = M57_SYNC_HEADER)
    (htype : byteAt input 3 % 16 = M57_DATA_TYPE) (hlen : 32768 < u16 input 4)
    (hrun : ReadRun m57Server (s, ⟨.ret, cl⟩) chunks p) (hfed : chunks.flatten <+: input) :
    p.2.pc = .ret ∧ p.2.cl.conn.proto = cl.conn.proto ∧ p.2.cl.IsIdle ∧
      ustreamGetReadBuf p.1 = chunks.flatten ∧ chunks.flatten.length ≤ 32768 := by
  have hmain : p.2.pc = .ret ∧ p.2.cl.conn.proto = cl.conn.proto ∧ p.2.cl.IsIdle ∧
      p.2.cl.us = chunks.flatten := by
    induction hrun with
    | nil => exact ⟨rfl, rfl, hidle, hus⟩
    | @snoc chunks chunk p p' hrun hevent ih =>
      rw [List.flatten_append, List.flatten_singleton] at hfed
      obtain ⟨hpc, hproto, hidle', hus'⟩ := ih ((List.prefix_append _ _).trans hfed)
      have hshows := (readAll_of_readRun withinBuffer_m57Server h hrun).1
      obtain ⟨hshows', -, hcases⟩ := hevent.reaches withinBuffer_m57Server hshows
      rw [List.flatten_append, List.flatten_singleton]
      rcases hcases with ⟨rfl, heq⟩ | ⟨-, hfin, hle, hreach⟩
      · rw [heq, List.append_nil]
        exact ⟨hpc, hproto, hidle', hus'⟩
      · -- the callback finds too little and returns at once
        have hus₀ : (recv chunk p.2.cl).cl.us = chunks.flatten ++ chunk := by
          rw [← hus']
          rfl
        have hidle₀ : (recv chunk p.2.cl).cl.IsIdle :=
          ⟨hidle'.state, hidle'.request, hidle'.dispatch, hidle'.response⟩
        have hwait : headerKind (recv chunk p.2.cl).cl.us = .wait :=
          headerKind_oversized hsync htype hlen (by rw [hus₀]; exact hfed) hle
        obtain ⟨cl₁, hread, hidle₁, hus₁, hproto₁, -⟩ := readIter_wait hidle₀ hwait
        have hone : Reaches (step m57Server) (recv chunk p.2.cl) ⟨.ret, cl₁⟩ := .single hread
        have heq := hreach.unique hone (step_of_isFinal _ hfin) (step_of_isFinal _ (.inl rfl))
        rw [heq]
        exact ⟨rfl, hproto₁.trans hproto, hidle₁, hus₁.trans hus₀⟩
  have hshows := (readAll_of_readRun withinBuffer_m57Server h hrun).1
  obtain ⟨hpc, hproto, hidle', hus'⟩ := hmain
  refine ⟨hpc, hproto, hidle', hshows.getReadBuf.trans hus', ?_⟩
  rw [← hus']
  exact hshows.length_le

/-- The header of a data frame of 65535 bytes, with the first byte of its data. -/
theorem readRun_oversized_header : ∃ p,
    ReadRun m57Server
        ((StreamRun.start true).s, ⟨.ret, .fresh (.start .reliable fun _ => false)⟩)
        [[0x51, 0x57, 0, 0, 255, 255, 0, 0, 9]] p ∧
      p.2.pc = .ret ∧ p.2.cl.conn.proto = .start .reliable (fun _ => false) ∧
      ustreamGetReadBuf p.1 = [0x51, 0x57, 0, 0, 255, 255, 0, 0, 9] := by
  have hrun := ReadRun.snoc
    (@ReadRun.nil _ m57Server
      ((StreamRun.start true).s, ⟨.ret, .fresh (.start .reliable fun _ => false)⟩))
    (@ReadEvent.some _ m57Server _ _ _ _ _ (.got [0x51, 0x57, 0, 0, 255, 255, 0, 0, 9])
      (fun _ => 0) _ rfl (List.cons_ne_nil _ _) 1 rfl (.inl rfl))
  obtain ⟨hpc, hproto, -, hbuf, -⟩ := @readRun_oversized _ _ _ _
    (shows_start true (.start .reliable fun _ => false)) (isIdle_fresh _) rfl
    [0x51, 0x57, 0, 0, 255, 255, 0, 0, 9] rfl rfl (by decide) hrun List.prefix_rfl
  exact ⟨_, hrun, hpc, hproto, hbuf⟩

end M57Card.M57
