import M57Card.Lib.Tally
import Mathlib.Data.Nat.Basic

/-!
# The sender threads of the clients

Every client has a thread that sends it the frames it has subscribed to (`net_thread.c`). The thread
waits until a broadcast clears its flag `is_wait`, walks through the vectors of the channel of its
priority, and reports with `_net_thread_con_over`, which adds one to `con_wait[prio]->count`. A
broadcast of a channel (`net_thread_con_broadcast`, lines 524–551) clears the flag of every client
of its priority with a non-empty table, takes the minimum of their number and of `thread_count` of
the priority, waits for as many reports, and sets the count to zero.

`thread_count` is increased by the first REGISTER of a client (`_net_thread_set_prio`, lines
622–639) and decreased when a thread ends (`_net_thread_exit`, lines 581–599). A new thread runs
`_thread_init` first (lines 646–665): it tests `have_inited`, allocates `con_wait` of each priority
when it is zero, sets it, and clears `is_sub`. Nothing locks this, so that two threads can both find
it zero; the second one then replaces the counters of the first one. A broadcast that waits already
goes on waiting for the counter that it has read.

The file has the system of these threads as a state with one function for each of its steps; a step
that cannot be taken leaves the state as it is. The steps of `tcp_client_do_for_each` are the
notifications of single clients, each client at most once in a round. Cancellation takes effect
while a thread waits; while it walks through the vectors it is disabled. The mutexes protect single
steps. The fields `registered`, `wakes`, `overs` and `served` of a thread are not in the source:
they record its history.

A REGISTER is one step. In the source it stores the priority twice, in the section of the client
(`m57.c`, line 1060), which a broadcast compares, and then in its thread (`net_thread.c`, lines
627–630), which the loop of the thread reads. What is said of a REGISTER here covers the whole
command.

## Main definitions

* `NetThread`, `Round`, `ThreadSys`.
* `netThreadCreateContext`, `registerThread`, `netThreadExit`.
* `threadInit`, `netThreadConInit`, `clearSub` : the steps of `_thread_init`.
* `broadcast`, `conNofity`, `countGet`, `conWaitTimeout`, `waitOver`, `waitTimeout`.
* `threadWake`, `threadDispatched`, `threadConOver`.
* `ThreadOp`, `ThreadSys.step`, `ThreadSys.run`.
-/

namespace M57Card.Net

/-- `_get_channel_by_prio`, with `PRIO_CHANNEL_EN`. -/
def getChannelByPrio (prio : ℕ) : ℕ := if prio = 0 then 1 else 0

/-- `_get_prio_by_channel`, with `PRIO_CHANNEL_EN`. -/
def getPrioByChannel (ch : ℕ) : ℕ := if ch = 0 then 1 else 0

/-- The priority that REGISTER sets for a type. -/
def prioOfType (type : ℕ) : ℕ := if type = 1 then 0 else 1

/-- `MAX_PRIO_LEVEL`. -/
def MAX_PRIO_LEVEL : ℕ := 2

/-- Where a thread stands. -/
inductive ThreadPc where
  /-- created, `_thread_init` not run yet -/
  | start
  /-- in the loop of `_thread_init`, before `con_wait[level]` is allocated -/
  | alloc (level : ℕ)
  /-- in `_thread_init`, before `is_sub` is cleared -/
  | clear
  /-- in `_net_thread_wait` -/
  | wait
  /-- in `spm_hash_do_for_each` on the vectors of a channel -/
  | dispatch (ch : ℕ)
  /-- before `_net_thread_con_over` -/
  | over
  deriving DecidableEq

/-- `struct net_thread_m` with the parts of its client that the code looks at: the priority, which
REGISTER stores in the section of the client and in the thread, and whether the subscription table
has an entry. -/
structure NetThread where
  /-- the thread has been created and has not ended -/
  alive : Bool := false
  prio : ℕ := 0
  isSub : Bool := false
  isWait : Bool := true
  hasTable : Bool := false
  pc : ThreadPc := .start
  /-- the client has sent a REGISTER -/
  registered : Bool := false
  /-- how often the thread has left `_net_thread_wait` -/
  wakes : ℕ := 0
  /-- how often the thread has called `_net_thread_con_over` -/
  overs : ℕ := 0
  /-- the finished walks: after which wake, and over the vectors of which channel -/
  served : List (ℕ × ℕ) := []
  deriving DecidableEq

/-- Where a broadcast of a priority stands. -/
inductive RoundPhase where
  | idle
  /-- in `tcp_client_do_for_each`, with the number of clients notified so far -/
  | notify (num : ℕ)
  /-- before `_net_thread_con_wait_timeout`, with the number of reports to wait for -/
  | counted (num : ℕ)
  /-- in `_net_thread_con_wait_timeout` -/
  | wait (num : ℕ)
  /-- in `_net_thread_con_wait_timeout`, with a `con_wait` that has been replaced since -/
  | waitOld (num count : ℕ)
  deriving DecidableEq

/-- A broadcast of a priority: which clients it has come to, and which of them it has notified, with
their number of wakes then. -/
structure Round where
  phase : RoundPhase := .idle
  visited : ℕ → Bool := fun _ => false
  notified : ℕ → Option ℕ := fun _ => none

/-- The counter of the round is replaced. -/
def Round.replace (r : Round) (count : ℕ) : Round :=
  match r.phase with
  | .wait num => { r with phase := .waitOld num count }
  | _ => r

/-- The threads, and `con_wait` for each priority. -/
structure ThreadSys where
  threads : ℕ → NetThread := fun _ => {}
  /-- the number of threads created so far -/
  next : ℕ := 0
  haveInited : Bool := false
  /-- `con_wait` has been allocated -/
  conWait : ℕ → Bool := fun _ => false
  threadCount : ℕ → ℕ := fun _ => 0
  count : ℕ → ℕ := fun _ => 0
  round : ℕ → Round := fun _ => {}

namespace ThreadSys

/-- Change a thread. -/
def onThread (id : ℕ) (f : NetThread → NetThread) (s : ThreadSys) : ThreadSys :=
  { s with threads := Function.update s.threads id (f (s.threads id)) }

/-- `_net_thread_count_add`. -/
def netThreadCountAdd (level : ℕ) (s : ThreadSys) : ThreadSys :=
  if s.conWait level then
    { s with threadCount := Function.update s.threadCount level (s.threadCount level + 1) }
  else
    s

/-- `_net_thread_count_sub`. -/
def netThreadCountSub (level : ℕ) (s : ThreadSys) : ThreadSys :=
  if s.conWait level then
    { s with threadCount := Function.update s.threadCount level (s.threadCount level - 1) }
  else
    s

/-- `net_thread_create_context`, when the thread can be created. -/
def netThreadCreateContext (s : ThreadSys) : ThreadSys :=
  { s with
    threads := Function.update s.threads s.next { alive := true }
    next := s.next + 1 }

/-- `_thread_init`, run by the new thread: the test of `have_inited`. -/
def threadInit (id : ℕ) (s : ThreadSys) : ThreadSys :=
  if (s.threads id).alive ∧ (s.threads id).pc = .start then
    s.onThread id fun t => { t with pc := if s.haveInited then .clear else .alloc 0 }
  else
    s

/-- `con_wait[level] = _net_thread_con_init(level)` in the loop of `_thread_init`. Behind the loop
`have_inited` is set. -/
def netThreadConInit (id : ℕ) (s : ThreadSys) : ThreadSys :=
  match (s.threads id).pc with
  | .alloc level =>
      { s.onThread id fun t =>
          { t with pc := if level + 1 < MAX_PRIO_LEVEL then .alloc (level + 1) else .clear } with
        haveInited := s.haveInited || decide (MAX_PRIO_LEVEL ≤ level + 1)
        conWait := Function.update s.conWait level true
        threadCount := Function.update s.threadCount level 0
        count := Function.update s.count level 0
        round := Function.update s.round level ((s.round level).replace (s.count level)) }
  | _ => s

/-- The end of `_thread_init`, which clears `is_sub`. -/
def clearSub (id : ℕ) (s : ThreadSys) : ThreadSys :=
  if (s.threads id).pc = .clear then
    s.onThread id fun t => { t with isSub := false, pc := .wait }
  else
    s

/-- REGISTER of a client with a thread: `_net_thread_set_prio`. -/
def registerThread (id type : ℕ) (s : ThreadSys) : ThreadSys :=
  if (s.threads id).alive then
    let s' := s.onThread id fun t =>
      { t with prio := prioOfType type, isSub := true, registered := true }
    if (s.threads id).isSub then s' else s'.netThreadCountAdd (prioOfType type)
  else
    s

/-- The subscription table of a client gets its first entry, or loses the last one. -/
def setTable (id : ℕ) (hasTable : Bool) (s : ThreadSys) : ThreadSys :=
  s.onThread id fun t => { t with hasTable := hasTable }

/-- `_net_thread_exit` of the cancelled thread of a client that disconnects. -/
def netThreadExit (id : ℕ) (s : ThreadSys) : ThreadSys :=
  if (s.threads id).alive ∧ ((s.threads id).pc = .start ∨ (s.threads id).pc = .wait) then
    (s.netThreadCountSub (s.threads id).prio).onThread id fun t => { t with alive := false }
  else
    s

/-- A broadcast of a channel starts. -/
def broadcast (ch : ℕ) (s : ThreadSys) : ThreadSys :=
  let prio := getPrioByChannel ch
  if (s.round prio).phase = .idle then
    { s with round := Function.update s.round prio { phase := .notify 0 } }
  else
    s

/-- `tcp_client_do_for_each` comes to a client; `_net_thread_con_nofity` is called for a client of
the priority, and clears the flag when the table has an entry. -/
def conNofity (ch id : ℕ) (s : ThreadSys) : ThreadSys :=
  let prio := getPrioByChannel ch
  let r := s.round prio
  match r.phase with
  | .notify num =>
      if (s.threads id).alive ∧ r.visited id = false then
        if (s.threads id).prio = prio ∧ (s.threads id).hasTable then
          { s.onThread id fun t => { t with isWait := false } with
            round := Function.update s.round prio
              { phase := .notify (num + 1)
                visited := Function.update r.visited id true
                notified := Function.update r.notified id (some (s.threads id).wakes) } }
        else
          { s with
            round := Function.update s.round prio
              { r with visited := Function.update r.visited id true } }
      else
        s
  | _ => s

/-- The number of reports that the broadcast waits for, from the number of clients it has notified.
Without `con_wait` the number of threads is read as the largest `uint32_t`. -/
def notifyNum (s : ThreadSys) (prio num : ℕ) : ℕ :=
  if s.conWait prio then min (s.threadCount prio) num else num

/-- The end of the notifications, with `_net_thread_count_get`: the broadcast returns when there is
nothing to wait for. -/
def countGet (ch : ℕ) (s : ThreadSys) : ThreadSys :=
  let prio := getPrioByChannel ch
  match (s.round prio).phase with
  | .notify num =>
      { s with
        round := Function.update s.round prio
          { s.round prio with
            phase := if 0 < s.notifyNum prio num then .counted (s.notifyNum prio num) else .idle } }
  | _ => s

/-- The call of `_net_thread_con_wait_timeout`, which returns at once without `con_wait`. -/
def conWaitTimeout (ch : ℕ) (s : ThreadSys) : ThreadSys :=
  let prio := getPrioByChannel ch
  match (s.round prio).phase with
  | .counted num =>
      { s with
        round := Function.update s.round prio
          { s.round prio with phase := if s.conWait prio then .wait num else .idle } }
  | _ => s

/-- The end of a wait, which sets its counter to zero. -/
def waited (prio : ℕ) (s : ThreadSys) : ThreadSys :=
  { s with
    count := Function.update s.count prio 0
    round := Function.update s.round prio { s.round prio with phase := .idle } }

/-- The end of a wait for a counter that has been replaced. -/
def waitedOld (prio : ℕ) (s : ThreadSys) : ThreadSys :=
  { s with round := Function.update s.round prio { s.round prio with phase := .idle } }

/-- `_net_thread_con_wait_timeout` finds enough reports, and the broadcast returns. -/
def waitOver (ch : ℕ) (s : ThreadSys) : ThreadSys :=
  let prio := getPrioByChannel ch
  match (s.round prio).phase with
  | .wait num => if num ≤ s.count prio then s.waited prio else s
  | .waitOld num count => if num ≤ count then s.waitedOld prio else s
  | _ => s

/-- `_net_thread_con_wait_timeout` gives up, and the broadcast returns. -/
def waitTimeout (ch : ℕ) (s : ThreadSys) : ThreadSys :=
  let prio := getPrioByChannel ch
  match (s.round prio).phase with
  | .wait num => if s.count prio < num then s.waited prio else s
  | .waitOld num count => if count < num then s.waitedOld prio else s
  | _ => s

/-- The thread leaves `_net_thread_wait` and starts to walk through the vectors of its channel. -/
def threadWake (id : ℕ) (s : ThreadSys) : ThreadSys :=
  if (s.threads id).alive ∧ (s.threads id).pc = .wait ∧ (s.threads id).isWait = false then
    s.onThread id fun t =>
      { t with isWait := true, pc := .dispatch (getChannelByPrio t.prio), wakes := t.wakes + 1 }
  else
    s

/-- The thread has walked through the vectors. -/
def threadDispatched (id : ℕ) (s : ThreadSys) : ThreadSys :=
  match (s.threads id).pc with
  | .dispatch ch =>
      s.onThread id fun t => { t with pc := .over, served := (t.wakes, ch) :: t.served }
  | _ => s

/-- `_net_thread_con_over`. -/
def threadConOver (id : ℕ) (s : ThreadSys) : ThreadSys :=
  if (s.threads id).pc = .over then
    { s.onThread id fun t => { t with pc := .wait, overs := t.overs + 1 } with
      count := Function.update s.count (s.threads id).prio (s.count (s.threads id).prio + 1) }
  else
    s

end ThreadSys

/-- The steps of the system. -/
inductive ThreadOp where
  | connect (created : Bool)
  | init (id : ℕ)
  | conInit (id : ℕ)
  | clear (id : ℕ)
  | register (id type : ℕ)
  | table (id : ℕ) (hasTable : Bool)
  | disconnect (id : ℕ)
  | broadcast (ch : ℕ)
  | nofity (ch id : ℕ)
  | countGet (ch : ℕ)
  | conWait (ch : ℕ)
  | waitOver (ch : ℕ)
  | waitTimeout (ch : ℕ)
  | wake (id : ℕ)
  | dispatched (id : ℕ)
  | conOver (id : ℕ)
  deriving DecidableEq

namespace ThreadSys

/-- One step. A client whose thread cannot be created has no thread. -/
def step (s : ThreadSys) : ThreadOp → ThreadSys
  | .connect created => if created then s.netThreadCreateContext else s
  | .init id => s.threadInit id
  | .conInit id => s.netThreadConInit id
  | .clear id => s.clearSub id
  | .register id type => s.registerThread id type
  | .table id hasTable => s.setTable id hasTable
  | .disconnect id => s.netThreadExit id
  | .broadcast ch => ThreadSys.broadcast ch s
  | .nofity ch id => s.conNofity ch id
  | .countGet ch => s.countGet ch
  | .conWait ch => s.conWaitTimeout ch
  | .waitOver ch => s.waitOver ch
  | .waitTimeout ch => s.waitTimeout ch
  | .wake id => s.threadWake id
  | .dispatched id => s.threadDispatched id
  | .conOver id => s.threadConOver id

/-- The steps `ops`, one after the other, from the start of the process. -/
def run (ops : List ThreadOp) : ThreadSys := ops.foldl step {}

/-! ### What REGISTER, the start and the end of a thread leave -/

section Frames

variable {s : ThreadSys}

theorem threads_register {id type : ℕ} (halive : (s.threads id).alive = true) :
    (s.registerThread id type).threads = Function.update s.threads id
      { s.threads id with prio := prioOfType type, isSub := true, registered := true } := by
  unfold registerThread netThreadCountAdd
  rw [if_pos halive]
  dsimp only
  split_ifs <;> rfl

theorem conWait_register (id type : ℕ) :
    (s.registerThread id type).conWait = s.conWait := by
  unfold registerThread netThreadCountAdd
  dsimp only
  split_ifs <;> rfl

theorem next_register (id type : ℕ) : (s.registerThread id type).next = s.next := by
  unfold registerThread netThreadCountAdd
  dsimp only
  split_ifs <;> rfl

theorem round_register (id type : ℕ) : (s.registerThread id type).round = s.round := by
  unfold registerThread netThreadCountAdd
  dsimp only
  split_ifs <;> rfl

theorem reports_register (id type : ℕ) : (s.registerThread id type).count = s.count := by
  unfold registerThread netThreadCountAdd
  dsimp only
  split_ifs <;> rfl

theorem threads_exit {id : ℕ}
    (hid : (s.threads id).alive = true ∧
      ((s.threads id).pc = .start ∨ (s.threads id).pc = .wait)) :
    (s.netThreadExit id).threads =
      Function.update s.threads id { s.threads id with alive := false } := by
  unfold netThreadExit netThreadCountSub
  rw [if_pos hid]
  split_ifs <;> rfl

theorem conWait_exit (id : ℕ) : (s.netThreadExit id).conWait = s.conWait := by
  unfold netThreadExit netThreadCountSub
  split_ifs <;> rfl

theorem next_exit (id : ℕ) : (s.netThreadExit id).next = s.next := by
  unfold netThreadExit netThreadCountSub
  split_ifs <;> rfl

theorem round_exit (id : ℕ) : (s.netThreadExit id).round = s.round := by
  unfold netThreadExit netThreadCountSub
  split_ifs <;> rfl

theorem reports_exit (id : ℕ) : (s.netThreadExit id).count = s.count := by
  unfold netThreadExit netThreadCountSub
  split_ifs <;> rfl

/-- The thread after an allocation. -/
theorem threads_conInit {id level : ℕ} (hpc : (s.threads id).pc = .alloc level) :
    (s.netThreadConInit id).threads = Function.update s.threads id { s.threads id with
      pc := if level + 1 < MAX_PRIO_LEVEL then .alloc (level + 1) else .clear } := by
  unfold netThreadConInit
  rw [hpc]
  rfl

theorem conWait_conInit {id level : ℕ} (hpc : (s.threads id).pc = .alloc level) :
    (s.netThreadConInit id).conWait = Function.update s.conWait level true := by
  unfold netThreadConInit
  rw [hpc]

theorem threadCount_conInit {id level : ℕ} (hpc : (s.threads id).pc = .alloc level) :
    (s.netThreadConInit id).threadCount = Function.update s.threadCount level 0 := by
  unfold netThreadConInit
  rw [hpc]

theorem reports_conInit {id level : ℕ} (hpc : (s.threads id).pc = .alloc level) :
    (s.netThreadConInit id).count = Function.update s.count level 0 := by
  unfold netThreadConInit
  rw [hpc]

theorem round_conInit {id level : ℕ} (hpc : (s.threads id).pc = .alloc level) :
    (s.netThreadConInit id).round =
      Function.update s.round level ((s.round level).replace (s.count level)) := by
  unfold netThreadConInit
  rw [hpc]

theorem next_conInit (id : ℕ) : (s.netThreadConInit id).next = s.next := by
  unfold netThreadConInit
  split <;> rfl

theorem conInit_of_ne {id : ℕ} (hpc : ∀ level, (s.threads id).pc ≠ .alloc level) :
    s.netThreadConInit id = s := by
  unfold netThreadConInit
  split
  case h_1 level h => exact absurd h (hpc level)
  case h_2 => rfl

end Frames

end ThreadSys

end M57Card.Net
