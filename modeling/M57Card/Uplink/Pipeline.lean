import M57Card.Uplink.Accounting
import M57Card.Uplink.Delivery
import M57Card.Uplink.Padding
import M57Card.Uplink.Pairs

/-!
# Rounds of the uplink

The dispatcher thread of a channel works in rounds (`spm.c`, lines 518–562). In each it reads blocks
and files their vectors, wakes the threads of the clients, waits for them, and clears the vectors.
The thread of a client visits the vectors of the table one after the other, and sends those whose
key it has in its own table at that moment (`net_thread.c`, lines 507–521 and 550–572). The threads
of different clients visit their vectors in any order, and commands of clients come in between.

The rounds belong to a build with `TCP_DATA_SEND_BY_THREADS` set to `1`. The board file of
`card10g_57` sets it to `0` (`bsp.h`, line 6), and the dispatcher then calls `send_xdma_data`
instead of waking threads.

The dispatcher waits for the threads for four seconds at most. A thread that is still in its walk
when a round ends walks on over the cleared and refilled table; that is not part of this file, and
the statements are about threads that are done with each round at its end (`DoneWith`). A thread
that has not returned from `send` stays where it is.

The addition of a length to the `send_bytes` of a key is part of the step of a thread here. The code
makes it without a lock (`spm_hash.c`, lines 259–269), and additions of two threads to one key that
overlap can lose one of them; the steps here are those of runs in which they do not overlap.

## Main definitions

* `Consumer`, `UplinkSys`, `Round` : the threads, the state, and a round.
* `UplinkSys.visit`, `Round.start`, `Round.after`, `Round.run`, `runRounds`.
* `Round.WellFormed` : the blocks of a round are well-formed frames.
* `DoneWith` : a thread is done with some rounds.

## Main results

* `sent_of_rounds` : what a client is sent in a round of a run.
-/

namespace M57Card.Uplink

open M57

/-! ### The model -/

/-- A block of frames: where it lies, and what it has. -/
structure Block where
  header : ℕ
  frames : List PaddedFrame

namespace Block

/-- The bytes of a block. -/
def bytes (b : Block) : List UInt8 := b.frames.flatMap PaddedFrame.bytes

/-- The address and the length of a block, as the driver gives them. -/
def range (b : Block) : ℕ × ℕ := (b.header, b.bytes.length)

end Block

/-- The thread of a client: the vectors that it has not visited yet, none when it waits for a round,
its counters, and the ranges that it has passed on in this round. -/
structure Consumer where
  todo : List (ℤ × Iovec) := []
  stat : ClientStat := {}
  sent : List (ℕ × ℕ) := []

/-- The memory of the blocks, the channel, the clients and their threads. -/
structure UplinkSys where
  mem : Mem
  channel : Channel := {}
  pairs : Pairs
  consumers : ℕ → Consumer := fun _ => {}

/-- A step between the reading of blocks and the clearing of the table: a command, a connect or a
disconnect, or the thread of a client visits a vector. -/
inductive RoundStep where
  | command (op : PairOp)
  | visit (id : ℕ) (socket : ℕ → ℕ → List SendResult)

namespace UplinkSys

/-- The key is in the table of the client. -/
def Subscribes (s : UplinkSys) (id : ℕ) (key : ℤ) : Prop :=
  clientHashDoForEachKey (s.pairs.ctx id) key = true

instance (s : UplinkSys) (id : ℕ) (key : ℤ) : Decidable (s.Subscribes id key) :=
  inferInstanceAs (Decidable (_ = _))

/-- The thread of a client goes on to the next vector. -/
def setConsumer (s : UplinkSys) (id : ℕ) (c : Consumer) : UplinkSys :=
  { s with consumers := Function.update s.consumers id c }

/-- `_data_dispatcher` on the next vector of a thread, with the addition to the `send_bytes` of its
key. -/
def visit (s : UplinkSys) (id : ℕ) (socket : ℕ → ℕ → List SendResult) : UplinkSys :=
  match (s.consumers id).todo with
  | [] => s
  | e :: rest =>
      if s.Subscribes id e.1 then
        match sendVecEntry s.mem socket s.channel.table e.1 e.2 (s.consumers id).stat with
        | none => s
        | some r =>
            { s with channel := { s.channel with table := r.table } }.setConsumer id
              { todo := rest, stat := r.stat, sent := (s.consumers id).sent ++ r.sent }
      else
        s.setConsumer id { s.consumers id with todo := rest }

/-- One step of a round. -/
def roundStep (s : UplinkSys) : RoundStep → UplinkSys
  | .command op => { s with pairs := s.pairs.step op }
  | .visit id socket => s.visit id socket

/-- `_net_thread_dispatcher_refresh`. -/
def refresh (s : UplinkSys) : UplinkSys :=
  { s with channel := { s.channel with table := spmClearAllHash s.channel.table } }

end UplinkSys

/-- A round: the memory with the blocks that are read, the blocks, the clients whose threads are
woken, and the steps until the table is cleared. -/
structure Round where
  mem : Mem
  blocks : List Block
  woken : Finset ℕ
  steps : List RoundStep

namespace Round

variable (cards : CardsStatus) (s : UplinkSys) (r : Round)

/-- The blocks are read and filed, and the threads that are woken start to visit the vectors of the
table. A thread that is not done with its last walk does not start another one. -/
def start : UplinkSys :=
  let channel := xdmaDataDispatcherBuffer r.mem cards (r.blocks.map Block.range) s.channel
  { s with
    mem := r.mem
    channel := channel
    consumers := fun id =>
      { todo :=
          if id ∈ r.woken ∧ (s.consumers id).todo = [] then spmHashDoForEach channel.table
          else (s.consumers id).todo
        stat := (s.consumers id).stat } }

/-- The state after some of the steps. -/
def after (steps : List RoundStep) : UplinkSys := steps.foldl UplinkSys.roundStep (r.start cards s)

/-- A whole round. -/
def run : UplinkSys := (r.after cards s r.steps).refresh

/-- The frames of a round. -/
def frames : List (List UInt8) := r.blocks.flatMap fun b => b.frames.map PaddedFrame.frame

end Round

/-- Some rounds. -/
def runRounds (cards : CardsStatus) (s : UplinkSys) (rounds : List Round) : UplinkSys :=
  rounds.foldl (fun s r => r.run cards s) s

/-- The thread of the client is done with each of some rounds when the round ends, and waits before
the first one. -/
def DoneWith (cards : CardsStatus) (s : UplinkSys) (id : ℕ) (rounds : List Round) : Prop :=
  ∀ pre, pre <+: rounds → ((runRounds cards s pre).consumers id).todo = []

/-- The key of a frame. -/
def frameKey (f : List UInt8) : ℤ := (subOf f).hashId

/-- The bytes that a thread has passed on in this round. -/
def UplinkSys.framesSent (s : UplinkSys) (id : ℕ) : List (List UInt8) :=
  (s.consumers id).sent.map fun r => s.mem.slice r.1 r.2

/-- The keys under which the runs of a block are filed. -/
def Block.keys (b : Block) : List ℤ :=
  (maximalRuns (b.frames.map PaddedFrame.frame)).map fun r => frameKey (r.headD [])

/-- A block of well-formed frames in memory, which the router reads as a whole and the sender can
follow: at most sixteen bytes of filler behind a frame, neither too many runs nor too long ones, and
no run of both priority classes. -/
structure Block.WellFormed (cards : CardsStatus) (m : Mem) (b : Block) : Prop where
  holds : m.Holds b.header b.bytes
  padded : ∀ x ∈ b.frames, IsPadded cards x ∧ x.filler.length ≤ 2
  size : b.bytes.length ≤ XDMA_BLOCK_SIZE
  runs : (maximalRuns (b.frames.map PaddedFrame.frame)).length ≤ XDMA_DATA_TYPE_MAX_PKGS
  few : ∀ r ∈ maximalRuns (b.frames.map PaddedFrame.frame), r.length < MAX_PACKAGES_NUM
  classes : ∀ r ∈ maximalRuns (b.frames.map PaddedFrame.frame), ∀ f ∈ r,
    frameKey f = frameKey (r.headD [])

/-- The blocks of a round are well-formed, and no key has more vectors than an entry can take. -/
structure Round.WellFormed (cards : CardsStatus) (r : Round) : Prop where
  blocks : ∀ b ∈ r.blocks, b.WellFormed cards r.mem
  vectors : ∀ key, (r.blocks.flatMap Block.keys).count key ≤ MAX_SPM_HASH_DATA

/-- The keys of some rounds. -/
def keysOf (rounds : List Round) : Finset ℤ :=
  (rounds.flatMap fun r => r.blocks.flatMap Block.keys).toFinset

/-! ### The frames of a block and their runs -/

/-- Each of the frames `qs` starts at most sixteen bytes behind the end of its predecessor, and has
a whole header. -/
def Close (m : Mem) : ℕ → List ℕ → Prop
  | _, [] => True
  | e, q :: qs => q ≤ e + 16 ∧ HPA_HEADER_LEN ≤ frameLen m q ∧ Close m (q + frameLen m q) qs

section Blocks

variable {m : Mem} {cards : CardsStatus} {header len lim a e : ℕ}

theorem Close.reads {qs : List ℕ} (h : Close m e qs) : Reads m e qs := by
  induction qs generalizing e with
  | nil => trivial
  | cons q qs ih => exact ⟨h.1.trans (by omega), h.2.1, ih h.2.2⟩

theorem Close.left {qs qs' : List ℕ} (h : Close m e (qs ++ qs')) : Close m e qs := by
  induction qs generalizing e with
  | nil => trivial
  | cons q qs ih => exact ⟨h.1, h.2.1, ih h.2.2⟩

/-- The frame behind a run is close to its last frame. -/
theorem Close.right {sub : NetSub} {stop : ℕ} {qs qs' : List ℕ}
    (hlinked : Linked m cards lim sub e qs stop) (h : Close m e (qs ++ qs')) :
    Close m stop qs' := by
  induction hlinked with
  | nil e => exact h
  | cons hq hrest ih => exact ih h.2.2

/-- The frames of a block with little filler are close to each other. -/
theorem close_positions {xs : List PaddedFrame}
    (hxs : ∀ x ∈ xs, IsPadded cards x ∧ x.filler.length ≤ 2)
    (hm : m.Holds a (xs.flatMap PaddedFrame.bytes)) (hle : a ≤ e + 16) :
    Close m e (positions a xs) := by
  induction xs generalizing a e with
  | nil => trivial
  | cons x xs ih =>
    obtain ⟨⟨hx, hfew⟩, hxs⟩ := List.forall_mem_cons.mp hxs
    rw [List.flatMap_cons, Mem.holds_append] at hm
    obtain ⟨hhere, hbehind⟩ := hm
    have hbytes : x.bytes.length = x.frame.length + x.filler.flatten.length := List.length_append
    have hfiller : x.filler.flatten.length = 8 * x.filler.length := by
      have hall : x.filler.map List.length = List.replicate x.filler.length 8 :=
        List.eq_replicate_iff.mpr ⟨List.length_map _, List.forall_mem_map.mpr fun g hg =>
          (hx.filler g hg).1⟩
      rw [List.length_flatten, hall, List.sum_replicate_nat, Nat.mul_comm]
    rw [PaddedFrame.bytes, Mem.holds_append] at hhere
    obtain ⟨-, hlen, -⟩ := hx.frame.inMemory hhere.1
    rw [positions]
    refine ⟨hle, hlen ▸ hx.frame.min, ?_⟩
    rw [hlen]
    exact ih hxs hbehind (by omega)

/-- A run ends with its last frame, or with the header behind it. -/
theorem limit_segmentAt (hstart : IsStart m cards a) (ha : a < lim) :
    (segmentAt m cards lim a).limit = (segmentAt m cards lim a).stop ∨
      nextHeader m lim (segmentAt m cards lim a).stop = some (segmentAt m cards lim a).limit := by
  have hspec := (segmentAt_spec hstart ha).2
  generalize segmentAt m cards lim a = s at hspec ⊢
  cases hend : s.ending with
  | unknown q =>
    simp only [hend] at hspec
    have hlimit : s.limit = q := by rw [Segment.limit, hend]
    exact .inr (hlimit ▸ hspec.2.1)
  | change q =>
    simp only [hend] at hspec
    have hlimit : s.limit = q := by rw [Segment.limit, hend]
    exact .inr (hlimit ▸ hspec.2.1)
  | _ => exact .inl (by rw [Segment.limit, hend])

/-- **The sender can follow the runs of a block** with little filler: the frames of each are close
to each other, and the vector ends less than a header behind the last one. -/
theorem LaidOut.reads_of_close {rs : List (List ℕ)} (h : LaidOut m cards lim a rs e)
    (hclose : Close m a rs.flatten) (hfew : ∀ r ∈ rs, r.length < MAX_PACKAGES_NUM)
    (hlim : e ≤ header + len) (ha : header ≤ a) (n : ℕ) :
    ∀ s ∈ segments m cards lim n a,
      Reads m s.start s.frames ∧ s.limit < s.stop + HPA_HEADER_LEN := by
  induction rs generalizing n a with
  | nil =>
    obtain rfl : e = a := h.first
    rw [segments_of_nextHeader_eq_none h.last]
    exact fun s hs => absurd hs List.not_mem_nil
  | cons r rs ih =>
    obtain ⟨hr, hfew⟩ := List.forall_mem_cons.mp hfew
    cases n with
    | zero => exact fun s hs => absurd hs List.not_mem_nil
    | succ n =>
      obtain ⟨s, hstart, hframes, hkept, hlt, hrest, hsegments⟩ := h.step hr hlim ha n
      have hs : s ∈ segments m cards lim (n + 1) a := by
        rw [hsegments]
        exact List.mem_cons_self
      obtain ⟨-, hin, hisStart, heq⟩ := eq_segmentAt_of_mem_segments hs
      have hlinked := linked_segmentAt hisStart hin
      rw [← heq, hframes, hstart] at hlinked
      rw [List.flatten_cons] at hclose
      have hbehind := hclose.right hlinked
      have hnear : s.limit < s.stop + HPA_HEADER_LEN ∧ Close m s.limit rs.flatten := by
        have hfirst := hrest.first
        cases hrs : rs.flatten with
        | nil =>
          -- behind the last run there is no header
          rw [hrs] at hfirst
          obtain rfl : e = s.limit := hfirst
          refine ⟨?_, trivial⟩
          rcases limit_segmentAt hisStart hin with hstop | hnext
          · rw [heq, hstop]
            exact Nat.lt_add_of_pos_right (by decide)
          · rw [← heq] at hnext
            have hnone := h.last
            rw [nextHeader_of_isSync (nextHeader_isSync hnext) (nextHeader_le hnext).2] at hnone
            cases hnone
        | cons b qs =>
          rw [hrs] at hfirst hbehind
          obtain rfl : b = s.limit := hfirst
          have hheader : HPA_HEADER_LEN = 24 := rfl
          exact ⟨by have hb := hbehind.1; omega, by omega, hbehind.2⟩
      have hfollow := ih hrest hnear.2 hfew (ha.trans hlt.le) n
      rw [hsegments]
      refine List.forall_mem_cons.mpr ⟨⟨?_, hnear.1⟩, hfollow⟩
      rw [hstart, hframes]
      exact hclose.left.reads

/-- The pieces of a list that agree with a filter piece by piece. -/
theorem flatMap_filter {α β : Type*} {f : α → List β} {p : α → Prop} {q : β → Prop}
    [DecidablePred p] [DecidablePred q] {l : List α} (h : ∀ a ∈ l, ∀ b ∈ f a, q b ↔ p a) :
    (l.filter p).flatMap f = (l.flatMap f).filter q := by
  induction l with
  | nil => rfl
  | cons a l ih =>
    obtain ⟨ha, hl⟩ := List.forall_mem_cons.mp h
    rw [List.flatMap_cons, List.filter_append, ← ih hl, List.filter_cons]
    by_cases hp : p a
    · have hall : (f a).filter q = f a :=
        List.filter_eq_self.mpr fun b hb => decide_eq_true ((ha b hb).mpr hp)
      rw [if_pos (decide_eq_true hp), List.flatMap_cons, hall]
    · have hnone : (f a).filter q = [] :=
        List.filter_eq_nil_iff.mpr fun b hb hq => hp ((ha b hb).mp (of_decide_eq_true hq))
      rw [if_neg (by rwa [decide_eq_true_eq]), hnone, List.nil_append]

/-- The bytes of the frame at an address. -/
def frameBytes (m : Mem) (p : ℕ) : List UInt8 := m.slice p (frameLen m p)

/-- The frames of a block, in memory. -/
theorem map_frameBytes_positions {xs : List PaddedFrame} (hxs : ∀ x ∈ xs, IsPadded cards x)
    (hm : m.Holds a (xs.flatMap PaddedFrame.bytes)) :
    (positions a xs).map (frameBytes m) = xs.map PaddedFrame.frame := by
  induction xs generalizing a with
  | nil => rfl
  | cons x xs ih =>
    obtain ⟨hx, hxs⟩ := List.forall_mem_cons.mp hxs
    rw [List.flatMap_cons, Mem.holds_append] at hm
    obtain ⟨hhere, hbehind⟩ := hm
    rw [PaddedFrame.bytes, Mem.holds_append] at hhere
    obtain ⟨-, hlen, -⟩ := hx.frame.inMemory hhere.1
    rw [positions, List.map_cons, List.map_cons, ih hxs hbehind, frameBytes, hlen,
      hhere.1.slice_eq]

end Blocks

namespace Block.WellFormed

variable {m : Mem} {cards : CardsStatus} {b : Block}

/-- The runs of a well-formed block, in memory. -/
theorem vectors_eq (hb : b.WellFormed cards m) :
    vectors m cards b.header b.bytes.length =
        segments m cards (b.header + b.bytes.length) XDMA_DATA_TYPE_MAX_PKGS b.header ∧
      (vectors m cards b.header b.bytes.length).map Segment.frames =
        runsOf m (positions b.header b.frames) ∧
      ∀ s ∈ vectors m cards b.header b.bytes.length,
        Reads m s.start s.frames ∧ s.limit < s.stop + HPA_HEADER_LEN := by
  have hxs : ∀ x ∈ b.frames, IsPadded cards x := fun x hx => (hb.padded x hx).1
  have hflat : (runsOf m (positions b.header b.frames)).flatten = positions b.header b.frames :=
    List.flatten_splitBy _ _
  obtain ⟨hcount, hshort⟩ := runsOf_positions hxs hb.holds
  obtain ⟨e, hle, hlaid, -⟩ := laidOut_positions hxs hb.holds
  have hfew := hshort.mpr hb.few
  have hclose := close_positions hb.padded hb.holds (e := b.header) (by omega)
  rw [← hflat] at hclose
  obtain ⟨hframes, hkept⟩ :=
    hlaid.frames_segments hfew hle (Nat.le_refl b.header) XDMA_DATA_TYPE_MAX_PKGS
  have hall : vectors m cards b.header b.bytes.length =
      segments m cards (b.header + b.bytes.length) XDMA_DATA_TYPE_MAX_PKGS b.header := by
    rw [vectors, blockRuns, if_neg (not_lt.mpr hb.size)]
    exact List.filter_eq_self.mpr fun s hs => decide_eq_true (hkept s hs)
  refine ⟨hall, ?_, ?_⟩
  · rw [hall]
    exact hframes.trans (List.take_of_length_le (hcount.trans_le hb.runs))
  · rw [hall]
    exact hlaid.reads_of_close hclose hfew hle (Nat.le_refl b.header) _

/-- The sender sends the frames of a vector, and nothing else. -/
theorem dataSendPackage_eq (hb : b.WellFormed cards m) {s : Segment}
    (hs : s ∈ vectors m cards b.header b.bytes.length) {socket : ℕ → ℕ → List SendResult}
    (hsocket : FullSends socket) :
    dataSendPackage m socket s.start s.size = ⟨s.frames.map (frameRange m), some s.size⟩ := by
  obtain ⟨hreads, hend⟩ := hb.vectors_eq.2.2 s hs
  exact dataSendPackage_of_end hs hsocket hreads hend

/-- The vectors of a block are filed under the keys of its runs. -/
theorem map_key (hb : b.WellFormed cards m) :
    (vectors m cards b.header b.bytes.length).map (fun s => (s.entry m).1) = b.keys := by
  have hxs : ∀ x ∈ b.frames, IsPadded cards x := fun x hx => (hb.padded x hx).1
  have hruns := hb.vectors_eq.2.1
  have hstart : ∀ s ∈ vectors m cards b.header b.bytes.length,
      (s.entry m).1 = (frameSub m (s.frames.headD 0)).hashId := by
    intro s hs
    rw [(eq_segmentAt_of_mem_vectors hs).2.2.2.1]
    rfl
  have hkeys : (vectors m cards b.header b.bytes.length).map (fun s => (s.entry m).1) =
      (runsOf m (positions b.header b.frames)).map fun r => (frameSub m (r.headD 0)).hashId := by
    rw [← hruns, List.map_map]
    exact List.map_congr_left hstart
  rw [hkeys]
  exact map_key_runsOf hxs hb.holds

/-- Every frame of a vector has the key of the vector. -/
theorem key_of_mem_frames (hb : b.WellFormed cards m) {s : Segment}
    (hs : s ∈ vectors m cards b.header b.bytes.length) {p : ℕ} (hp : p ∈ s.frames) :
    (frameSub m p).hashId = (s.entry m).1 := by
  have hxs : ∀ x ∈ b.frames, IsPadded cards x := fun x hx => (hb.padded x hx).1
  have hrun : s.frames ∈ runsOf m (positions b.header b.frames) := by
    rw [← hb.vectors_eq.2.1]
    exact List.mem_map_of_mem hs
  have hmem := List.mem_map_of_mem (f := List.map (frameSub m)) hrun
  rw [map_frameSub_runsOf hxs hb.holds] at hmem
  obtain ⟨r, hr, heq⟩ := List.mem_map.mp hmem
  have hall : ∀ sub ∈ s.frames.map (frameSub m), sub.hashId = frameKey (r.headD []) := by
    rw [← heq]
    exact List.forall_mem_map.mpr fun f hf => hb.classes r hr f hf
  have hfirst := start_mem_frames hs
  exact (hall _ (List.mem_map_of_mem hp)).trans (hall _ (List.mem_map_of_mem hfirst)).symm

/-- The frames of the vectors with a key are the frames of the block with the key. -/
theorem flatMap_frames_filter (hb : b.WellFormed cards m) (key : ℤ) :
    (((vectors m cards b.header b.bytes.length).filter fun s => (s.entry m).1 = key).flatMap
        Segment.frames).map (frameBytes m) =
      (b.frames.map PaddedFrame.frame).filter fun f => frameKey f = key := by
  have hxs : ∀ x ∈ b.frames, IsPadded cards x := fun x hx => (hb.padded x hx).1
  have hkey : ∀ p ∈ positions b.header b.frames,
      frameKey (frameBytes m p) = (frameSub m p).hashId := by
    have hsub := map_frameSub_positions hxs hb.holds
    rw [← map_frameBytes_positions hxs hb.holds, List.map_map] at hsub
    intro p hp
    exact congrArg NetSub.hashId (List.map_inj_left.mp hsub p hp).symm
  have hflat : (vectors m cards b.header b.bytes.length).flatMap Segment.frames =
      positions b.header b.frames := by
    rw [List.flatMap_def, hb.vectors_eq.2.1]
    exact List.flatten_splitBy _ _
  have hsplit : ((vectors m cards b.header b.bytes.length).filter fun s =>
      (s.entry m).1 = key).flatMap Segment.frames =
        (positions b.header b.frames).filter fun p => (frameSub m p).hashId = key := by
    rw [← hflat]
    refine flatMap_filter fun s hs p hp => ?_
    rw [hb.key_of_mem_frames hs hp]
  rw [hsplit, ← map_frameBytes_positions hxs hb.holds, List.filter_map]
  refine congrArg (List.map (frameBytes m)) (List.filter_congr fun p hp => ?_)
  rw [Function.comp_apply, hkey p hp]

end Block.WellFormed

/-! ### The table over the rounds -/

section Table

variable {V : Type} {t : SpmHash V} {es : List (ℤ × V)}

theorem mem_keys_renewAll {k : ℤ} (h : k ∈ (renewAll t es).entries.keys) :
    k ∈ es.map Prod.fst ∨ k ∈ t.entries.keys := by
  induction es generalizing t with
  | nil => exact .inr h
  | cons e es ih =>
    rcases ih h with hmem | hmem
    · exact .inl (List.mem_cons_of_mem _ hmem)
    · rcases mem_keys_spmHashRenew hmem with rfl | hmem
      · exact .inl List.mem_cons_self
      · exact .inr hmem

theorem maxEntries_renewAll : (renewAll t es).maxEntries = t.maxEntries := by
  induction es generalizing t with
  | nil => rfl
  | cons e es ih => exact ih.trans (maxEntries_run t (.renew e.1 e.2))

theorem mem_keys_spmClearAllHash {k : ℤ} :
    k ∈ (spmClearAllHash t).entries.keys ↔ k ∈ t.entries.keys := by
  rw [CacheHash.mem_keys_iff, CacheHash.mem_keys_iff, find_spmClearAllHash]
  cases t.find k with
  | none => exact Iff.rfl
  | some d => exact iff_of_true (Option.some_ne_none _) (Option.some_ne_none _)

end Table

/-! ### The steps of a round -/

section Steps

variable {s : UplinkSys} {m : Mem} {id : ℕ} {ranges : ℤ × Iovec → List (ℕ × ℕ)}

/-- What the threads leave of the table. -/
structure SameVectors (t t' : SpmHash Iovec) : Prop where
  vecs : ∀ k, vecs t' k = Uplink.vecs t k
  keys : t'.entries.keys = t.entries.keys
  maxEntries : t'.maxEntries = t.maxEntries

theorem SameVectors.refl (t : SpmHash Iovec) : SameVectors t t := ⟨fun _ => rfl, rfl, rfl⟩

theorem SameVectors.trans {t t' t'' : SpmHash Iovec} (h : SameVectors t t')
    (h' : SameVectors t' t'') : SameVectors t t'' :=
  ⟨fun k => (h'.vecs k).trans (h.vecs k), h'.keys.trans h.keys, h'.maxEntries.trans h.maxEntries⟩

theorem table_of_sendVecEntry {socket : ℕ → ℕ → List SendResult} {t : SpmHash Iovec} {key : ℤ}
    {v : Iovec} {st : ClientStat} {r : VecEntry} (h : sendVecEntry m socket t key v st = some r) :
    SameVectors t r.table := by
  rw [sendVecEntry] at h
  split_ifs at h with hzero
  · obtain rfl := Option.some.inj h
    exact SameVectors.refl t
  · obtain ⟨ret, -, rfl⟩ := Option.map_eq_some_iff.mp h
    exact ⟨fun k => vecs_spmHashSetSendbytes t key k v.len, CacheHash.keys_modify t key _, rfl⟩

/-- What a step of a thread can do: nothing, or go on to the next vector, with the ranges sent for
the vector when its key is in the table of the client. -/
theorem visit_cases (s : UplinkSys) (id : ℕ) (socket : ℕ → ℕ → List SendResult) :
    (s.visit id socket = s ∧ ∀ e rest, (s.consumers id).todo = e :: rest →
        s.Subscribes id e.1 ∧
          sendVecEntry s.mem socket s.channel.table e.1 e.2 (s.consumers id).stat = none) ∨
      ∃ e rest, (s.consumers id).todo = e :: rest ∧
        ((s.Subscribes id e.1 ∧ ∃ r,
            sendVecEntry s.mem socket s.channel.table e.1 e.2 (s.consumers id).stat = some r ∧
            s.visit id socket =
              { s with channel := { s.channel with table := r.table } }.setConsumer id
                { todo := rest, stat := r.stat, sent := (s.consumers id).sent ++ r.sent }) ∨
          ¬ s.Subscribes id e.1 ∧
            s.visit id socket = s.setConsumer id { s.consumers id with todo := rest }) := by
  cases htodo : (s.consumers id).todo with
  | nil =>
    refine .inl ⟨?_, fun e rest h => by cases h⟩
    simp only [UplinkSys.visit, htodo]
  | cons e rest =>
    by_cases hsub : s.Subscribes id e.1
    · cases hsend : sendVecEntry s.mem socket s.channel.table e.1 e.2 (s.consumers id).stat with
      | none =>
        refine .inl ⟨?_, fun e' rest' h => ?_⟩
        · simp only [UplinkSys.visit, htodo, hsub, if_true, hsend]
        · obtain ⟨rfl, rfl⟩ := List.cons.inj h
          exact ⟨hsub, hsend⟩
      | some r =>
        refine .inr ⟨e, rest, rfl, .inl ⟨hsub, r, hsend, ?_⟩⟩
        simp only [UplinkSys.visit, htodo, hsub, if_true, hsend]
    · refine .inr ⟨e, rest, rfl, .inr ⟨hsub, ?_⟩⟩
      simp only [UplinkSys.visit, htodo, hsub, if_false]

/-- A step leaves the memory and the vectors of the table. -/
theorem roundStep_frame (s : UplinkSys) (x : RoundStep) :
    (s.roundStep x).mem = s.mem ∧ SameVectors s.channel.table (s.roundStep x).channel.table := by
  cases x with
  | command op => exact ⟨rfl, SameVectors.refl _⟩
  | visit id socket =>
    change (s.visit id socket).mem = s.mem ∧
      SameVectors s.channel.table (s.visit id socket).channel.table
    rcases visit_cases s id socket with ⟨heq, -⟩ | ⟨e, rest, -, ⟨-, r, hsend, heq⟩ | ⟨-, heq⟩⟩
    · rw [heq]
      exact ⟨rfl, SameVectors.refl _⟩
    · rw [heq]
      exact ⟨rfl, table_of_sendVecEntry hsend⟩
    · rw [heq]
      exact ⟨rfl, SameVectors.refl _⟩

theorem foldl_roundStep_frame (s : UplinkSys) (steps : List RoundStep) :
    (steps.foldl UplinkSys.roundStep s).mem = s.mem ∧
      SameVectors s.channel.table (steps.foldl UplinkSys.roundStep s).channel.table := by
  induction steps generalizing s with
  | nil => exact ⟨rfl, SameVectors.refl _⟩
  | cons x steps ih =>
    obtain ⟨hmem, htable⟩ := roundStep_frame s x
    obtain ⟨hmem', htable'⟩ := ih (s.roundStep x)
    exact ⟨hmem'.trans hmem, htable.trans htable'⟩

/-- Something holds before each of some steps. -/
def Throughout (s : UplinkSys) (steps : List RoundStep) (P : UplinkSys → Prop) : Prop :=
  ∀ pre x, pre ++ [x] <+: steps → P (pre.foldl UplinkSys.roundStep s)

theorem Throughout.of_append {steps : List RoundStep} {x : RoundStep} {P : UplinkSys → Prop}
    (h : Throughout s (steps ++ [x]) P) :
    Throughout s steps P ∧ P (steps.foldl UplinkSys.roundStep s) :=
  ⟨fun pre y hpre => h pre y (hpre.trans (List.prefix_append _ _)), h steps x (List.prefix_refl _)⟩

/-- The thread of a client after some steps: it has visited the vectors `done`, and sent the ranges
of the vectors `picked`. Of the vectors of a key it has sent all when the client has had the key
before each step, and none when it never has. -/
structure Progress (s : UplinkSys) (id : ℕ) (ranges : ℤ × Iovec → List (ℕ × ℕ))
    (steps : List RoundStep) (c : Consumer) (done picked : List (ℤ × Iovec)) : Prop where
  split : (s.consumers id).todo = done ++ c.todo
  sublist : picked.Sublist done
  sent : c.sent = picked.flatMap ranges
  always (k : ℤ) : Throughout s steps (fun s => s.Subscribes id k) →
    (picked.filter fun e => e.1 = k) = done.filter fun e => e.1 = k
  never (k : ℤ) : Throughout s steps (fun s => ¬ s.Subscribes id k) →
    (picked.filter fun e => e.1 = k) = []

namespace Progress

variable {steps : List RoundStep} {c : Consumer} {done picked : List (ℤ × Iovec)}

/-- A step that leaves the thread where it is. -/
theorem stay (h : Progress s id ranges steps c done picked) (x : RoundStep) :
    Progress s id ranges (steps ++ [x]) c done picked :=
  ⟨h.split, h.sublist, h.sent, fun k hk => h.always k hk.of_append.1,
    fun k hk => h.never k hk.of_append.1⟩

/-- The thread sends a vector. -/
theorem hit (h : Progress s id ranges steps c done picked) (x : RoundStep) {e : ℤ × Iovec}
    {rest : List (ℤ × Iovec)} (htodo : c.todo = e :: rest)
    (hsub : (steps.foldl UplinkSys.roundStep s).Subscribes id e.1) (st : ClientStat) :
    Progress s id ranges (steps ++ [x]) { todo := rest, stat := st, sent := c.sent ++ ranges e }
      (done ++ [e]) (picked ++ [e]) where
  split := by rw [h.split, htodo, List.append_assoc, List.singleton_append]
  sublist := h.sublist.append (List.Sublist.refl _)
  sent := by rw [h.sent, List.flatMap_append, List.flatMap_singleton]
  always k hk := by rw [List.filter_append, List.filter_append, h.always k hk.of_append.1]
  never k hk := by
    have hne : e.1 ≠ k := fun hek => hk.of_append.2 (hek ▸ hsub)
    rw [List.filter_append, h.never k hk.of_append.1, List.filter_singleton]
    simp only [hne, decide_false, cond_false, List.append_nil]

/-- The thread goes over a vector. -/
theorem miss (h : Progress s id ranges steps c done picked) (x : RoundStep) {e : ℤ × Iovec}
    {rest : List (ℤ × Iovec)} (htodo : c.todo = e :: rest)
    (hsub : ¬ (steps.foldl UplinkSys.roundStep s).Subscribes id e.1) :
    Progress s id ranges (steps ++ [x]) { c with todo := rest } (done ++ [e]) picked where
  split := by rw [h.split, htodo, List.append_assoc, List.singleton_append]
  sublist := h.sublist.trans (List.sublist_append_left _ _)
  sent := h.sent
  always k hk := by
    have hne : e.1 ≠ k := fun hek => hsub (hek ▸ hk.of_append.2)
    rw [List.filter_append, h.always k hk.of_append.1, List.filter_singleton]
    simp only [hne, decide_false, cond_false, List.append_nil]
  never k hk := h.never k hk.of_append.1

end Progress

/-- Without commands the tables of the clients stay. -/
theorem throughout_of_visits {steps : List RoundStep}
    (hsteps : ∀ x ∈ steps, ∃ id socket, x = .visit id socket) {P : Pairs → Prop} (h : P s.pairs) :
    Throughout s steps fun s => P s.pairs := by
  have hpairs (xs : List RoundStep) (hxs : ∀ x ∈ xs, ∃ id socket, x = .visit id socket)
      (s : UplinkSys) : (xs.foldl UplinkSys.roundStep s).pairs = s.pairs := by
    induction xs generalizing s with
    | nil => rfl
    | cons x xs ih =>
      obtain ⟨⟨id, socket, rfl⟩, hrest⟩ := List.forall_mem_cons.mp hxs
      refine (ih hrest _).trans ?_
      change (s.visit id socket).pairs = s.pairs
      rcases visit_cases s id socket with ⟨heq, -⟩ | ⟨e, rest, -, ⟨-, r, -, heq⟩ | ⟨-, heq⟩⟩
      all_goals rw [heq]
      all_goals rfl
  rintro pre x hpre
  have hmem (y : RoundStep) (hy : y ∈ pre) : y ∈ steps :=
    hpre.subset (List.mem_append_left _ hy)
  change P (pre.foldl UplinkSys.roundStep s).pairs
  rwa [hpairs pre (fun y hy => hsteps y (hmem y hy)) s]

theorem consumers_setConsumer_self (s : UplinkSys) (id : ℕ) (c : Consumer) :
    (s.setConsumer id c).consumers id = c := Function.update_self ..

theorem consumers_setConsumer_of_ne (s : UplinkSys) {id id' : ℕ} (h : id' ≠ id) (c : Consumer) :
    (s.setConsumer id' c).consumers id = s.consumers id := Function.update_of_ne h.symm _ _

/-- The steps of other threads leave a thread. -/
theorem consumers_visit_of_ne {id' : ℕ} (h : id' ≠ id) (socket : ℕ → ℕ → List SendResult) :
    (s.visit id' socket).consumers id = s.consumers id := by
  rcases visit_cases s id' socket with ⟨heq, -⟩ | ⟨e, rest, -, ⟨-, r, -, heq⟩ | ⟨-, heq⟩⟩
  · rw [heq]
  · rw [heq, consumers_setConsumer_of_ne _ h]
  · rw [heq, consumers_setConsumer_of_ne _ h]

/-- **The vectors that a thread sends**, whatever the other threads and the clients do meanwhile. By
induction on the steps. -/
theorem exists_progress (steps : List RoundStep) (hsent : (s.consumers id).sent = [])
    (hranges : ∀ e ∈ (s.consumers id).todo, e.2.len ≠ 0 ∧ ∀ socket, FullSends socket →
      dataSendPackage s.mem socket e.2.base e.2.len = ⟨ranges e, some e.2.len⟩)
    (hsends : ∀ socket, RoundStep.visit id socket ∈ steps → FullSends socket) :
    ∃ done picked, Progress s id ranges steps
      ((steps.foldl UplinkSys.roundStep s).consumers id) done picked := by
  induction steps using List.reverseRecOn with
  | nil => exact ⟨[], [], ⟨rfl, .slnil, hsent, fun _ _ => rfl, fun _ _ => rfl⟩⟩
  | append_singleton steps x ih =>
    obtain ⟨done, picked, hp⟩ := ih fun socket h => hsends socket (List.mem_append_left _ h)
    have hmem := (foldl_roundStep_frame s steps).1
    rw [List.foldl_append, List.foldl_cons, List.foldl_nil]
    cases x with
    | command op => exact ⟨done, picked, hp.stay _⟩
    | visit id' socket =>
      change ∃ done picked, Progress s id ranges _
        (((steps.foldl UplinkSys.roundStep s).visit id' socket).consumers id) done picked
      by_cases hid : id' = id
      · subst hid
        have hfull := hsends socket (List.mem_append_right _ (List.mem_singleton_self _))
        rcases visit_cases (steps.foldl UplinkSys.roundStep s) id' socket with
          ⟨heq, -⟩ | ⟨e, rest, htodo, ⟨hsub, r, hsend, heq⟩ | ⟨hsub, heq⟩⟩
        · rw [heq]
          exact ⟨done, picked, hp.stay _⟩
        · obtain ⟨hlen, hpackage⟩ := hranges e (by
            rw [hp.split, htodo]
            exact List.mem_append_right _ List.mem_cons_self)
          have hr : r.sent = ranges e := by
            rw [sendVecEntry, if_neg hlen, hmem, hpackage socket hfull] at hsend
            exact (congrArg VecEntry.sent (Option.some.inj hsend)).symm
          rw [heq, consumers_setConsumer_self, hr]
          exact ⟨_, _, hp.hit _ htodo hsub r.stat⟩
        · rw [heq, consumers_setConsumer_self]
          exact ⟨_, _, hp.miss _ htodo hsub⟩
      · rw [consumers_visit_of_ne hid]
        exact ⟨done, picked, hp.stay _⟩

end Steps

/-! ### A round -/

namespace Round

variable {cards : CardsStatus} {r : Round} {s : UplinkSys}

/-- The keys and the vectors of a round. -/
def entries (cards : CardsStatus) (r : Round) : List (ℤ × Iovec) :=
  r.blocks.flatMap fun b => (vectors r.mem cards b.header b.bytes.length).map (Segment.entry r.mem)

/-- The ranges that are sent for a vector. -/
def ranges (r : Round) (e : ℤ × Iovec) : List (ℕ × ℕ) :=
  (dataSendPackage r.mem (fun _ n => [.sent n]) e.2.base e.2.len).sent

/-- The bytes of a range. -/
def bytesOf (r : Round) (x : ℕ × ℕ) : List UInt8 := r.mem.slice x.1 x.2

theorem mem_entries {e : ℤ × Iovec} :
    e ∈ r.entries cards ↔ ∃ b ∈ r.blocks,
      ∃ x ∈ vectors r.mem cards b.header b.bytes.length, x.entry r.mem = e := by
  simp only [entries, List.mem_flatMap, List.mem_map]

theorem map_fst_entries (hr : r.WellFormed cards) :
    (r.entries cards).map Prod.fst = r.blocks.flatMap Block.keys := by
  rw [entries, List.map_flatMap]
  refine List.flatMap_congr fun b hb => ?_
  rw [List.map_map]
  exact (hr.blocks b hb).map_key

/-- What the sender does with the vectors of a round. -/
theorem dataSendPackage_entries (hr : r.WellFormed cards) {e : ℤ × Iovec}
    (he : e ∈ r.entries cards) :
    e.1 ≠ 0 ∧ e.2.len ≠ 0 ∧ ∀ socket, FullSends socket →
      dataSendPackage r.mem socket e.2.base e.2.len = ⟨r.ranges e, some e.2.len⟩ := by
  obtain ⟨b, hb, x, hx, rfl⟩ := mem_entries.mp he
  obtain ⟨-, -, hstart, -, hpos, -⟩ := eq_segmentAt_of_mem_vectors hx
  have hall {socket : ℕ → ℕ → List SendResult} (hsocket : FullSends socket) :=
    (hr.blocks b hb).dataSendPackage_eq hx hsocket
  refine ⟨hashId_ne_zero hstart.2.2, hpos.ne', fun socket hsocket => ?_⟩
  exact (hall hsocket).trans (congrArg (fun sent => Sent.mk sent (some (x.size : ℤ)))
    (congrArg Sent.sent (hall fullSends_sent)).symm)

/-- The ranges of a vector are those of its frames. -/
theorem map_bytesOf_ranges (hr : r.WellFormed cards) {b : Block} (hb : b ∈ r.blocks) {x : Segment}
    (hx : x ∈ vectors r.mem cards b.header b.bytes.length) :
    (r.ranges (x.entry r.mem)).map r.bytesOf = x.frames.map (frameBytes r.mem) := by
  have hsent := congrArg Sent.sent ((hr.blocks b hb).dataSendPackage_eq hx fullSends_sent)
  rw [ranges]
  refine (congrArg (List.map r.bytesOf) hsent).trans ?_
  rw [List.map_map]
  rfl

/-- **The frames of a key in a round** are what its vectors are sent as. -/
theorem filter_entries (hr : r.WellFormed cards) (key : ℤ) :
    (((r.entries cards).filter fun e => e.1 = key).flatMap r.ranges).map r.bytesOf =
      r.frames.filter fun f => frameKey f = key := by
  have hblock : ∀ b ∈ r.blocks,
      ((((vectors r.mem cards b.header b.bytes.length).map (Segment.entry r.mem)).filter fun e =>
        e.1 = key).flatMap r.ranges).map r.bytesOf =
        (b.frames.map PaddedFrame.frame).filter fun f => frameKey f = key := by
    intro b hb
    rw [← (hr.blocks b hb).flatMap_frames_filter key, List.filter_map, List.flatMap_map,
      List.map_flatMap, List.map_flatMap]
    exact List.flatMap_congr fun x hx =>
      map_bytesOf_ranges hr hb (List.mem_of_mem_filter hx)
  rw [entries, frames, List.filter_flatMap, List.filter_flatMap, List.flatMap_assoc,
    List.map_flatMap]
  exact List.flatMap_congr hblock

/-- The ranges of a vector are frames of the round, with the key of the vector. -/
theorem bytesOf_mem_frames (hr : r.WellFormed cards) {e : ℤ × Iovec} (he : e ∈ r.entries cards)
    {x : ℕ × ℕ} (hx : x ∈ r.ranges e) :
    r.bytesOf x ∈ r.frames ∧ frameKey (r.bytesOf x) = e.1 := by
  have hmem : r.bytesOf x ∈ (((r.entries cards).filter fun e' => e'.1 = e.1).flatMap
      r.ranges).map r.bytesOf :=
    List.mem_map_of_mem (List.mem_flatMap.mpr
      ⟨e, List.mem_filter.mpr ⟨he, decide_eq_true rfl⟩, hx⟩)
  rw [filter_entries hr e.1, List.mem_filter, decide_eq_true_eq] at hmem
  exact hmem

/-- The table between the rounds: no vectors, and keys out of a given set. -/
structure Ready (keys : Finset ℤ) (t : SpmHash Iovec) : Prop where
  vecs : ∀ k, vecs t k = []
  keys : ∀ k ∈ t.entries.keys, k ∈ keys
  maxEntries : t.maxEntries = MAX_SPM_RANDOM_ENTRIES

theorem table_start (cards : CardsStatus) (s : UplinkSys) (r : Round) :
    (r.start cards s).channel.table = renewAll s.channel.table (r.entries cards) := by
  refine (table_xdmaDataDispatcherBuffer r.mem cards (r.blocks.map Block.range) s.channel).trans ?_
  rw [List.flatMap_map]
  rfl

variable {keys : Finset ℤ}

/-- The table has room for a round whose keys fit. -/
theorem hasRoom (hr : r.WellFormed cards) (hs : Ready keys s.channel.table)
    (hkeys : (keys ∪ (r.blocks.flatMap Block.keys).toFinset).card ≤ MAX_SPM_RANDOM_ENTRIES) :
    HasRoom s.channel.table ((r.entries cards).map Prod.fst) := by
  rw [map_fst_entries hr]
  refine ⟨fun k _ => ?_, le_max_of_le_left ?_⟩
  · rw [hs.vecs, List.length_nil, Nat.zero_add]
    exact hr.vectors k
  · rw [hs.maxEntries]
    refine (Finset.card_le_card ?_).trans hkeys
    exact Finset.union_subset_union_left fun k hk => hs.keys k (List.mem_toFinset.mp hk)

/-- A thread that is woken visits the vectors of the table. -/
theorem todo_start {id : ℕ} (hid : id ∈ r.woken) (hidle : (s.consumers id).todo = []) :
    ((r.start cards s).consumers id).todo = spmHashDoForEach (r.start cards s).channel.table :=
  if_pos ⟨hid, hidle⟩

/-- The vectors of a key that the threads visit in a round. -/
theorem filter_todo (hr : r.WellFormed cards) (hs : Ready keys s.channel.table)
    (hkeys : (keys ∪ (r.blocks.flatMap Block.keys).toFinset).card ≤ MAX_SPM_RANDOM_ENTRIES)
    {id : ℕ} (hid : id ∈ r.woken) (hidle : (s.consumers id).todo = []) (key : ℤ) :
    (((r.start cards s).consumers id).todo.filter fun e => e.1 = key) =
      (r.entries cards).filter fun e => e.1 = key := by
  have hvecs := (hasRoom hr hs hkeys).vecs_renewAll
    (fun e he => (dataSendPackage_entries hr he).1) key
  rw [hs.vecs, List.nil_append, ← table_start, ← filter_spmHashDoForEach] at hvecs
  -- pairs with one key are determined by their vectors
  have hpair (l : List (ℤ × Iovec)) : (l.filter fun e => e.1 = key) =
      ((l.filter fun e => e.1 = key).map Prod.snd).map (key, ·) := by
    rw [List.map_map]
    refine ((List.map_congr_left fun e he => ?_).trans (List.map_id _)).symm
    have hkey := (List.mem_filter.mp he).2
    rw [decide_eq_true_eq] at hkey
    exact Prod.ext hkey.symm rfl
  rw [todo_start hid hidle, hpair, hpair (r.entries cards)]
  exact congrArg _ hvecs

theorem mem_entries_of_mem_todo (hr : r.WellFormed cards) (hs : Ready keys s.channel.table)
    (hkeys : (keys ∪ (r.blocks.flatMap Block.keys).toFinset).card ≤ MAX_SPM_RANDOM_ENTRIES)
    {id : ℕ} (hid : id ∈ r.woken) (hidle : (s.consumers id).todo = []) {e : ℤ × Iovec}
    (he : e ∈ ((r.start cards s).consumers id).todo) : e ∈ r.entries cards := by
  have hmem : e ∈ ((r.start cards s).consumers id).todo.filter fun e' => e'.1 = e.1 :=
    List.mem_filter.mpr ⟨he, decide_eq_true rfl⟩
  rw [filter_todo hr hs hkeys hid hidle] at hmem
  exact List.mem_of_mem_filter hmem

/-- The table after a round. -/
theorem Ready.run (hs : Ready keys s.channel.table) (hr : r.WellFormed cards) :
    Ready (keys ∪ (r.blocks.flatMap Block.keys).toFinset) (r.run cards s).channel.table := by
  have hsteps := (foldl_roundStep_frame (r.start cards s) r.steps).2
  refine ⟨fun k => vecs_spmClearAllHash _ k, fun k hk => ?_, ?_⟩
  · have hmem := mem_keys_spmClearAllHash.mp hk
    change k ∈ (List.foldl UplinkSys.roundStep (r.start cards s) r.steps).channel.table.entries.keys
      at hmem
    rw [hsteps.keys, table_start] at hmem
    rcases mem_keys_renewAll hmem with hmem | hmem
    · rw [map_fst_entries hr] at hmem
      exact Finset.mem_union_right _ (List.mem_toFinset.mpr hmem)
    · exact Finset.mem_union_left _ (hs.keys k hmem)
  · refine (maxEntries_run _ .clear).trans (hsteps.maxEntries.trans ?_)
    rw [table_start, maxEntries_renewAll, hs.maxEntries]

/-- **What a client is sent in a round** whose steps its thread survives. -/
theorem sent_of_ready (hr : r.WellFormed cards) (hs : Ready keys s.channel.table)
    (hkeys : (keys ∪ (r.blocks.flatMap Block.keys).toFinset).card ≤ MAX_SPM_RANDOM_ENTRIES)
    {id : ℕ} (hid : id ∈ r.woken) (hidle : (s.consumers id).todo = [])
    (hsends : ∀ socket, RoundStep.visit id socket ∈ r.steps → FullSends socket)
    (hdone : ((r.after cards s r.steps).consumers id).todo = []) :
    (∀ f ∈ (r.after cards s r.steps).framesSent id, f ∈ r.frames) ∧
      ∀ key, (Throughout (r.start cards s) r.steps (fun s => s.Subscribes id key) →
          (((r.after cards s r.steps).framesSent id).filter fun f => frameKey f = key) =
            r.frames.filter fun f => frameKey f = key) ∧
        (Throughout (r.start cards s) r.steps (fun s => ¬ s.Subscribes id key) →
          (((r.after cards s r.steps).framesSent id).filter fun f => frameKey f = key) = []) := by
  have htodo {e : ℤ × Iovec} (he : e ∈ ((r.start cards s).consumers id).todo) :=
    mem_entries_of_mem_todo hr hs hkeys hid hidle he
  have hranges (e) (he : e ∈ ((r.start cards s).consumers id).todo) :
      e.2.len ≠ 0 ∧ ∀ socket, FullSends socket →
        dataSendPackage (r.start cards s).mem socket e.2.base e.2.len =
          ⟨r.ranges e, some e.2.len⟩ :=
    (dataSendPackage_entries hr (htodo he)).2
  obtain ⟨done, picked, hp⟩ := exists_progress r.steps rfl hranges hsends
  have hall : ((r.start cards s).consumers id).todo = done := by
    have hsplit := hp.split
    change _ = done ++ ((r.after cards s r.steps).consumers id).todo at hsplit
    rwa [hdone, List.append_nil] at hsplit
  have hpicked : ∀ e ∈ picked, e ∈ r.entries cards := by
    intro e he
    have hmem := hp.sublist.subset he
    rw [← hall] at hmem
    exact htodo hmem
  have hmem : (r.after cards s r.steps).mem = r.mem := (foldl_roundStep_frame _ r.steps).1
  have hsent : (r.after cards s r.steps).framesSent id =
      (picked.flatMap r.ranges).map r.bytesOf := by
    rw [UplinkSys.framesSent, hmem, ← hp.sent]
    rfl
  have hfilter (key : ℤ) :
      (((r.after cards s r.steps).framesSent id).filter fun f => frameKey f = key) =
        ((picked.filter fun e => e.1 = key).flatMap r.ranges).map r.bytesOf := by
    rw [hsent, List.filter_map]
    refine congrArg (List.map r.bytesOf) (flatMap_filter fun e he x hx => ?_).symm
    rw [(bytesOf_mem_frames hr (hpicked e he) hx).2]
  refine ⟨fun f hf => ?_, fun key => ⟨fun h => ?_, fun h => ?_⟩⟩
  · rw [hsent] at hf
    obtain ⟨x, hx, rfl⟩ := List.mem_map.mp hf
    obtain ⟨e, he, hx⟩ := List.mem_flatMap.mp hx
    exact (bytesOf_mem_frames hr (hpicked e he) hx).1
  · rw [hfilter, hp.always key h, ← hall, filter_todo hr hs hkeys hid hidle, filter_entries hr]
  · rw [hfilter, hp.never key h]
    rfl

end Round

/-! ### Runs -/

section Runs

variable {cards : CardsStatus}

theorem runRounds_append (s : UplinkSys) (rounds rounds' : List Round) :
    runRounds cards s (rounds ++ rounds') = runRounds cards (runRounds cards s rounds) rounds' :=
  List.foldl_append

/-- The table after some rounds. -/
theorem ready_runRounds {s : UplinkSys} (hnew : s.channel.table = spmHashCreate)
    {rounds : List Round} (hwf : ∀ r ∈ rounds, r.WellFormed cards) :
    Round.Ready (keysOf rounds) (runRounds cards s rounds).channel.table := by
  induction rounds using List.reverseRecOn with
  | nil =>
    rw [runRounds, List.foldl_nil, hnew]
    exact ⟨fun k => rfl, fun k hk => absurd hk List.not_mem_nil, rfl⟩
  | append_singleton rounds r ih =>
    have hr := hwf r (List.mem_append_right _ (List.mem_singleton_self r))
    have hrun := (ih fun r' hr' => hwf r' (List.mem_append_left _ hr')).run hr
    have hkeys : keysOf (rounds ++ [r]) =
        keysOf rounds ∪ (r.blocks.flatMap Block.keys).toFinset := by
      rw [keysOf, List.flatMap_append, List.flatMap_singleton, List.toFinset_append]
      rfl
    rw [hkeys, runRounds_append]
    exact hrun

/-- **From the frames of the blocks to the clients.** Along a run of rounds with well-formed blocks
and at most `MAX_SPM_RANDOM_ENTRIES` keys, a client whose thread has been done with every earlier
round, is woken in a round and done when it ends, and whose sends succeed, has been sent frames of
this round only, unchanged; for a key that it has had in its table throughout the round all frames
of the key, each once and in their order; for a key that it has not had, none. The other threads,
and commands between the visits, make no difference. -/
theorem sent_of_rounds {s : UplinkSys} (hnew : s.channel.table = spmHashCreate)
    {rounds pre post : List Round} {r : Round} (heq : rounds = pre ++ r :: post)
    (hwf : ∀ r ∈ rounds, r.WellFormed cards)
    (hkeys : (keysOf rounds).card ≤ MAX_SPM_RANDOM_ENTRIES) {id : ℕ} (hid : id ∈ r.woken)
    (hpre : DoneWith cards s id pre)
    (hsends : ∀ socket, RoundStep.visit id socket ∈ r.steps → FullSends socket)
    (hdone : ((r.after cards (runRounds cards s pre) r.steps).consumers id).todo = []) :
    (∀ f ∈ (r.after cards (runRounds cards s pre) r.steps).framesSent id, f ∈ r.frames) ∧
      ∀ key,
        (Throughout (r.start cards (runRounds cards s pre)) r.steps
            (fun s => s.Subscribes id key) →
          (((r.after cards (runRounds cards s pre) r.steps).framesSent id).filter fun f =>
            frameKey f = key) = r.frames.filter fun f => frameKey f = key) ∧
        (Throughout (r.start cards (runRounds cards s pre)) r.steps
            (fun s => ¬ s.Subscribes id key) →
          (((r.after cards (runRounds cards s pre) r.steps).framesSent id).filter fun f =>
            frameKey f = key) = []) := by
  subst heq
  have hr := hwf r (List.mem_append_right _ List.mem_cons_self)
  have hready := ready_runRounds hnew fun r' hr' => hwf r' (List.mem_append_left _ hr')
  have hidle := hpre pre List.prefix_rfl
  refine Round.sent_of_ready hr hready ((Finset.card_le_card ?_).trans hkeys) hid hidle hsends hdone
  intro k hk
  rw [keysOf, List.flatMap_append, List.toFinset_append, List.flatMap_cons, List.toFinset_append]
  rcases Finset.mem_union.mp hk with hk | hk
  · exact Finset.mem_union_left _ hk
  · exact Finset.mem_union_right _ (Finset.mem_union_left _ hk)

end Runs

/-- A block with a frame of function one and a frame of function two, both visited for one
client. -/
def twoFunctions : Round where
  mem := Mem.ofList (headerBytes 1 24 0x502 1 0 ++ headerBytes 1 24 0x502 2 0)
  blocks := [⟨0, [⟨headerBytes 1 24 0x502 1 0, []⟩, ⟨headerBytes 1 24 0x502 2 0, []⟩]⟩]
  woken := {0}
  steps := [.visit 0 fun _ n => [.sent n], .visit 0 fun _ n => [.sent n]]

/-- A client that has subscribed to function one. -/
def subscriber : UplinkSys where
  mem := Mem.ofList []
  pairs :=
    { host := { env := Env.reliable, cards := fun slot => decide (slot = 5),
                peers := [{ id := 0, addr := 1, port := 1, hash := [53] }] } }

theorem wellFormed_twoFunctions : twoFunctions.WellFormed CardsStatus.slotFive := by
  have hframe (f : ℕ) (hf : f = 1 ∨ f = 2) :
      IsPadded CardsStatus.slotFive ⟨headerBytes 1 24 0x502 f 0, []⟩ := by
    refine ⟨?_, fun g hg => absurd hg List.not_mem_nil⟩
    rcases hf with rfl | rfl
    · exact ⟨by decide, by decide, by decide, by decide, by decide⟩
    · exact ⟨by decide, by decide, by decide, by decide, by decide⟩
  refine ⟨List.forall_mem_singleton.mpr ⟨Mem.holds_ofList _, ?_, by decide, by decide, by decide,
    by decide⟩, fun key => ?_⟩
  · exact List.forall_mem_cons.mpr ⟨⟨hframe 1 (.inl rfl), by decide⟩,
      List.forall_mem_singleton.mpr ⟨hframe 2 (.inr rfl), by decide⟩⟩
  · exact List.count_le_length.trans (by decide)

/-- In the second of two rounds the client is sent the frame of function one, and not that of
function two. -/
theorem sent_of_rounds_twoFunctions :
    ((((twoFunctions.after CardsStatus.slotFive
          (runRounds CardsStatus.slotFive subscriber [twoFunctions])
          twoFunctions.steps).framesSent 0).filter fun f => frameKey f = 53) =
        [headerBytes 1 24 0x502 1 0]) ∧
      ((twoFunctions.after CardsStatus.slotFive
          (runRounds CardsStatus.slotFive subscriber [twoFunctions])
          twoFunctions.steps).framesSent 0).filter (fun f => frameKey f = 85) = [] := by
  have hvisits : ∀ x ∈ twoFunctions.steps, ∃ id socket, x = .visit id socket := by
    intro x hx
    rcases List.mem_cons.mp hx with rfl | hx
    · exact ⟨_, _, rfl⟩
    · exact ⟨_, _, List.mem_singleton.mp hx⟩
  have hsends : ∀ socket, RoundStep.visit 0 socket ∈ twoFunctions.steps → FullSends socket := by
    intro socket h
    rcases List.mem_cons.mp h with h | h
    · obtain ⟨-, rfl⟩ := RoundStep.visit.inj h
      exact fullSends_sent
    · obtain ⟨-, rfl⟩ := RoundStep.visit.inj (List.mem_singleton.mp h)
      exact fullSends_sent
  have hpre : DoneWith CardsStatus.slotFive subscriber 0 [twoFunctions] := by
    intro pre hpre
    rcases List.prefix_cons_iff.mp hpre with rfl | ⟨rest, rfl, hrest⟩
    · rfl
    · rw [List.prefix_nil.mp hrest]
      decide +kernel
  have hdone : ((twoFunctions.after CardsStatus.slotFive
      (runRounds CardsStatus.slotFive subscriber [twoFunctions]) twoFunctions.steps).consumers
      0).todo = [] := by decide +kernel
  have hwf : ∀ r ∈ [twoFunctions, twoFunctions], r.WellFormed CardsStatus.slotFive :=
    List.forall_mem_cons.mpr
      ⟨wellFormed_twoFunctions, List.forall_mem_singleton.mpr wellFormed_twoFunctions⟩
  obtain ⟨-, hkeys⟩ := @sent_of_rounds CardsStatus.slotFive subscriber rfl
    [twoFunctions, twoFunctions] [twoFunctions] [] twoFunctions rfl hwf (by decide) 0 (by decide)
    hpre hsends hdone
  have hone := (hkeys 53).1 (throughout_of_visits hvisits
    (P := fun pairs => clientHashDoForEachKey (pairs.ctx 0) 53 = true) (by decide))
  have htwo := (hkeys 85).2 (throughout_of_visits hvisits
    (P := fun pairs => ¬ clientHashDoForEachKey (pairs.ctx 0) 85 = true) (by decide))
  refine ⟨hone.trans (by decide), htwo⟩

end M57Card.Uplink
