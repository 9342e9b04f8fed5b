import M57Card.Lib.Runs
import M57Card.Net.Threads

/-!
# The number of consumers of a priority

A broadcast waits for at most `con_wait[prio]->thread_count` reports. The counter should be the
number of threads that are alive, have registered, and have the priority.

The first REGISTER of a client counts it at the priority of that REGISTER. A later REGISTER with
another type changes the priority of the thread and leaves the counters, and a thread that ends is
taken off the counter of its priority whether it has been counted or not. `_thread_init`, which runs
in the new thread, allocates the counters and clears `is_sub`, so that a REGISTER before it is
either not counted or counted again later. A second thread that finds `have_inited` zero allocates
the counters again, and what has been counted until then is lost.

## Main definitions

* `ThreadSys.Counted` : the counters are the numbers of registered threads.
* `ThreadSys.CountStep` : the steps that keep them so.

## Main results

* `counted_iff` : the counters are right in every state of a run exactly when all its steps are
  such.
-/

namespace M57Card.Net

namespace ThreadSys

/-- Thread `i` is alive, has registered, and has the priority `level`. -/
def RegisteredAt (s : ThreadSys) (level i : ℕ) : Prop :=
  (s.threads i).alive = true ∧ (s.threads i).registered = true ∧ (s.threads i).prio = level

instance (s : ThreadSys) (level : ℕ) : DecidablePred (s.RegisteredAt level) := fun i => by
  unfold RegisteredAt
  infer_instance

/-- Every counter is the number of threads that are alive, have registered, and have its priority.
-/
def Counted (s : ThreadSys) : Prop :=
  ∀ level, s.threadCount level = Nat.count (s.RegisteredAt level) s.next

/-- A REGISTER comes when `con_wait` of its priority is allocated, and does not change the type of a
registered client; a client that disconnects has registered, or no thread is counted at its
priority; `con_wait` is allocated when no thread is counted at its priority. -/
def CountStep (s : ThreadSys) : ThreadOp → Prop
  | .conInit id => ∀ level, (s.threads id).pc = .alloc level → s.threadCount level = 0
  | .register id type => (s.threads id).alive = true →
      s.conWait (prioOfType type) = true ∧ ((s.threads id).registered = true →
        (s.threads id).isSub = true ∧ (s.threads id).prio = prioOfType type)
  | .disconnect id =>
      (s.threads id).alive = true ∧ ((s.threads id).pc = .start ∨ (s.threads id).pc = .wait) →
        (s.threads id).registered = true ∨ s.threadCount (s.threads id).prio = 0
  | _ => True

/-! ### What holds in every run -/

/-- What holds of the threads and the counters in every run. -/
structure CountWf (s : ThreadSys) : Prop where
  created : ∀ i, (s.threads i).alive = true → i < s.next
  sub : ∀ i, (s.threads i).isSub = true → (s.threads i).registered = true
  counters : ∀ level, s.conWait level = false → s.threadCount level = 0

/-- Two states that agree in what the counters depend on. -/
structure SameCounts (s s' : ThreadSys) : Prop where
  alive : ∀ i, (s'.threads i).alive = (s.threads i).alive
  prio : ∀ i, (s'.threads i).prio = (s.threads i).prio
  isSub : ∀ i, (s'.threads i).isSub = (s.threads i).isSub
  registered : ∀ i, (s'.threads i).registered = (s.threads i).registered
  next : s'.next = s.next
  conWait : s'.conWait = s.conWait
  threadCount : s'.threadCount = s.threadCount

/-- A change that leaves the threads and the counters. -/
theorem SameCounts.of_threads {s s' : ThreadSys} (hthreads : s'.threads = s.threads)
    (hnext : s'.next = s.next) (hinited : s'.conWait = s.conWait)
    (hcount : s'.threadCount = s.threadCount) : SameCounts s s' := by
  refine ⟨fun i => ?_, fun i => ?_, fun i => ?_, fun i => ?_, hnext, hinited, hcount⟩ <;>
    rw [hthreads]

theorem SameCounts.refl (s : ThreadSys) : SameCounts s s := .of_threads rfl rfl rfl rfl

/-- A change of one thread that leaves what the counters depend on. -/
theorem SameCounts.of_update {s s' : ThreadSys} {id : ℕ} {t : NetThread}
    (hthreads : s'.threads = Function.update s.threads id t)
    (ht : t.alive = (s.threads id).alive ∧ t.prio = (s.threads id).prio ∧
      t.isSub = (s.threads id).isSub ∧ t.registered = (s.threads id).registered)
    (hnext : s'.next = s.next) (hinited : s'.conWait = s.conWait)
    (hcount : s'.threadCount = s.threadCount) : SameCounts s s' := by
  obtain ⟨halive, hprio, hsub, hreg⟩ := ht
  refine ⟨fun i => ?_, fun i => ?_, fun i => ?_, fun i => ?_, hnext, hinited, hcount⟩ <;>
    · rw [hthreads]
      by_cases hi : i = id
      · subst hi
        rw [Function.update_self]
        assumption
      · rw [Function.update_of_ne hi]

theorem SameCounts.counted {s s' : ThreadSys} (h : SameCounts s s') :
    s'.Counted ↔ s.Counted := by
  refine forall_congr' fun level => ?_
  have hcount : Nat.count (s'.RegisteredAt level) s'.next =
      Nat.count (s.RegisteredAt level) s.next := by
    rw [h.next]
    refine Tally.count_eq_of_iff fun k _ => ?_
    rw [RegisteredAt, h.alive, h.registered, h.prio]
    rfl
  rw [h.threadCount, hcount]

theorem SameCounts.countWf {s s' : ThreadSys} (h : SameCounts s s') (hs : s.CountWf) :
    s'.CountWf := by
  refine ⟨fun i hi => ?_, fun i hi => ?_, fun i hi => ?_⟩
  · rw [h.next]
    exact hs.created i (h.alive i ▸ hi)
  · rw [h.registered]
    exact hs.sub i (h.isSub i ▸ hi)
  · rw [h.threadCount]
    exact hs.counters i (h.conWait ▸ hi)

/-- The steps that come from connecting, registering and disconnecting. -/
def ChangesCounts : ThreadOp → Prop
  | .connect _ | .conInit _ | .clear _ | .register _ _ | .disconnect _ => True
  | _ => False

/-- The steps of broadcasts and of the loops of the threads leave the counters alone. -/
theorem sameCounts_step (s : ThreadSys) {op : ThreadOp} (hop : ¬ ChangesCounts op) :
    SameCounts s (s.step op) := by
  cases op with
  | connect b => exact absurd trivial hop
  | conInit id => exact absurd trivial hop
  | clear id => exact absurd trivial hop
  | register id type => exact absurd trivial hop
  | disconnect id => exact absurd trivial hop
  | init id =>
    dsimp only [step, threadInit]
    split_ifs
    · exact .of_update rfl ⟨rfl, rfl, rfl, rfl⟩ rfl rfl rfl
    · exact .of_update rfl ⟨rfl, rfl, rfl, rfl⟩ rfl rfl rfl
    · exact .refl s
  | table id b => exact .of_update rfl ⟨rfl, rfl, rfl, rfl⟩ rfl rfl rfl
  | broadcast ch =>
    dsimp only [step, ThreadSys.broadcast]
    split_ifs
    · exact .of_threads rfl rfl rfl rfl
    · exact .refl s
  | nofity ch id =>
    dsimp only [step, conNofity]
    split
    · split_ifs
      · exact .of_update rfl ⟨rfl, rfl, rfl, rfl⟩ rfl rfl rfl
      · exact .of_threads rfl rfl rfl rfl
      · exact .refl s
    · exact .refl s
  | countGet ch =>
    dsimp only [step, ThreadSys.countGet]
    split
    · exact .of_threads rfl rfl rfl rfl
    · exact .refl s
  | conWait ch =>
    dsimp only [step, ThreadSys.conWaitTimeout]
    split
    · exact .of_threads rfl rfl rfl rfl
    · exact .refl s
  | waitOver ch =>
    dsimp only [step, ThreadSys.waitOver]
    split
    · split_ifs
      · exact .of_threads rfl rfl rfl rfl
      · exact .refl s
    · split_ifs
      · exact .of_threads rfl rfl rfl rfl
      · exact .refl s
    · exact .refl s
  | waitTimeout ch =>
    dsimp only [step, ThreadSys.waitTimeout]
    split
    · split_ifs
      · exact .of_threads rfl rfl rfl rfl
      · exact .refl s
    · split_ifs
      · exact .of_threads rfl rfl rfl rfl
      · exact .refl s
    · exact .refl s
  | wake id =>
    dsimp only [step, threadWake]
    split_ifs
    · exact .of_update rfl ⟨rfl, rfl, rfl, rfl⟩ rfl rfl rfl
    · exact .refl s
  | dispatched id =>
    dsimp only [step, threadDispatched]
    split
    · exact .of_update rfl ⟨rfl, rfl, rfl, rfl⟩ rfl rfl rfl
    · exact .refl s
  | conOver id =>
    dsimp only [step, threadConOver]
    split_ifs
    · exact .of_update rfl ⟨rfl, rfl, rfl, rfl⟩ rfl rfl rfl
    · exact .refl s

/-! ### The steps that change the counters -/

section Steps

variable {s : ThreadSys}

/-- The numbers of registered threads in a state, seen from a state with one other thread. -/
theorem registeredAt_update {threads : ℕ → NetThread} {id : ℕ} {t : NetThread} {s' : ThreadSys}
    (hthreads : s'.threads = Function.update threads id t) (level k : ℕ) :
    s'.RegisteredAt level k ↔
      if k = id then t.alive = true ∧ t.registered = true ∧ t.prio = level
      else (threads k).alive = true ∧ (threads k).registered = true ∧ (threads k).prio = level := by
  unfold RegisteredAt
  rw [hthreads]
  by_cases hk : k = id
  · subst hk
    rw [Function.update_self, if_pos rfl]
  · rw [Function.update_of_ne hk, if_neg hk]

/-- A new thread has not registered. -/
theorem counted_connect (hc : s.Counted) : s.netThreadCreateContext.Counted := by
  intro level
  have hat (k : ℕ) : s.netThreadCreateContext.RegisteredAt level k ↔
      k ≠ s.next ∧ s.RegisteredAt level k := by
    rw [registeredAt_update rfl]
    split_ifs with hk
    · simp [hk]
    · simp [hk, RegisteredAt]
  have hnext : s.netThreadCreateContext.next = s.next + 1 := rfl
  rw [hnext, Nat.count_succ, if_neg fun h => ((hat s.next).mp h).1 rfl, Nat.add_zero]
  exact (hc level).trans (Tally.count_eq_of_iff fun k hk =>
    ((hat k).trans (and_iff_right hk.ne)).symm)

/-- A change of a thread that leaves what the counters should be. -/
theorem registeredAt_of_update {s' : ThreadSys} {id : ℕ} {t : NetThread}
    (hthreads : s'.threads = Function.update s.threads id t)
    (ht : t.alive = (s.threads id).alive ∧ t.registered = (s.threads id).registered ∧
      t.prio = (s.threads id).prio) (level k : ℕ) :
    s.RegisteredAt level k ↔ s'.RegisteredAt level k := by
  rw [registeredAt_update hthreads]
  obtain ⟨halive, hreg, hprio⟩ := ht
  by_cases hk : k = id
  · subst hk
    rw [if_pos rfl, halive, hreg, hprio]
    rfl
  · rw [if_neg hk]
    rfl

theorem counted_clear (hc : s.Counted) (id : ℕ) : (s.clearSub id).Counted := by
  unfold clearSub
  split_ifs
  · exact fun level => (hc level).trans
      (Tally.count_eq_of_iff fun k _ => registeredAt_of_update
        (t := { s.threads id with isSub := false, pc := .wait }) rfl ⟨rfl, rfl, rfl⟩ level k)
  · exact hc

/-- A counter that is allocated is right exactly when no thread is counted in it. -/
theorem counted_conInit_iff (hc : s.Counted) (id : ℕ) :
    (s.netThreadConInit id).Counted ↔
      ∀ level, (s.threads id).pc = .alloc level → s.threadCount level = 0 := by
  by_cases hpc : ∃ level, (s.threads id).pc = .alloc level
  · obtain ⟨level, hpc⟩ := hpc
    have hnow (l : ℕ) : Nat.count ((s.netThreadConInit id).RegisteredAt l)
        (s.netThreadConInit id).next = s.threadCount l := by
      rw [next_conInit]
      exact ((hc l).trans (Tally.count_eq_of_iff fun k _ =>
        registeredAt_of_update (threads_conInit hpc) ⟨rfl, rfl, rfl⟩ l k)).symm
    constructor
    · intro h l hl
      obtain rfl : level = l := ThreadPc.alloc.inj (hpc.symm.trans hl)
      rw [← hnow, ← h, threadCount_conInit hpc, Function.update_self]
    · intro hzero l
      rw [hnow, threadCount_conInit hpc]
      by_cases hl : l = level
      · rw [hl, Function.update_self, hzero level hpc]
      · rw [Function.update_of_ne hl]
  · rw [conInit_of_ne (not_exists.mp hpc)]
    exact iff_of_true hc fun level h => absurd ⟨level, h⟩ hpc

/-- The numbers of registered threads after a REGISTER of thread `id`. -/
theorem count_register {s' : ThreadSys} {id p : ℕ} (hid : id < s.next)
    (hat : ∀ level k, s'.RegisteredAt level k ↔
      if k = id then p = level else s.RegisteredAt level k)
    (level : ℕ) :
    Nat.count (s'.RegisteredAt level) s.next + (if s.RegisteredAt level id then 1 else 0) =
      Nat.count (s.RegisteredAt level) s.next + if p = level then 1 else 0 := by
  have hother (k : ℕ) (hk : k ≠ id) : s.RegisteredAt level k ↔ s'.RegisteredAt level k := by
    rw [hat, if_neg hk]
  have hself : s'.RegisteredAt level id ↔ p = level := by rw [hat, if_pos rfl]
  have hsame (hself' : s.RegisteredAt level id ↔ p = level) :
      Nat.count (s'.RegisteredAt level) s.next = Nat.count (s.RegisteredAt level) s.next := by
    refine Tally.count_eq_of_iff fun k _ => ?_
    by_cases hk : k = id
    · subst hk
      rw [hself, hself']
    · exact (hother k hk).symm
  by_cases hbefore : s.RegisteredAt level id
  · by_cases hafter : p = level
    · rw [if_pos hbefore, if_pos hafter, hsame (iff_of_true hbefore hafter)]
    · rw [if_pos hbefore, if_neg hafter,
        Tally.count_of_loss hid hbefore (fun h => hafter (hself.mp h)) hother, Nat.add_zero]
  · by_cases hafter : p = level
    · rw [if_neg hbefore, if_pos hafter,
        Tally.count_of_gain hid hbefore (hself.mpr hafter) hother, Nat.add_zero]
    · rw [if_neg hbefore, if_neg hafter, hsame (iff_of_false hbefore hafter)]

theorem threadCount_register {id type : ℕ} (halive : (s.threads id).alive = true) (level : ℕ) :
    (s.registerThread id type).threadCount level = s.threadCount level +
      if (s.threads id).isSub = false ∧ s.conWait (prioOfType type) = true ∧
        prioOfType type = level then 1 else 0 := by
  unfold registerThread
  rw [if_pos halive]
  by_cases hsub : (s.threads id).isSub = true
  · simp [hsub, onThread]
  · have hfalse : (s.threads id).isSub = false := by simpa using hsub
    rw [if_neg hsub, netThreadCountAdd]
    by_cases hinit : s.conWait (prioOfType type) = true
    · simp only [onThread, hinit, if_true, hfalse, true_and]
      by_cases hlevel : prioOfType type = level
      · subst hlevel
        simp
      · rw [Function.update_of_ne fun h => hlevel h.symm, if_neg hlevel, Nat.add_zero]
    · simp [onThread, hinit]

theorem registeredAt_register (type : ℕ) {id : ℕ} (halive : (s.threads id).alive = true)
    (level k : ℕ) :
    (s.registerThread id type).RegisteredAt level k ↔
      if k = id then prioOfType type = level else s.RegisteredAt level k := by
  rw [registeredAt_update (threads_register halive)]
  split_ifs
  · simp [halive]
  · rfl

theorem registeredAt_iff {id : ℕ} (halive : (s.threads id).alive = true) (level : ℕ) :
    s.RegisteredAt level id ↔
      (s.threads id).registered = true ∧ (s.threads id).prio = level := by
  rw [RegisteredAt, and_iff_right halive]

/-- What a REGISTER adds to each counter, against what it changes in the numbers of threads. -/
theorem counted_register_iff_levels (hs : s.CountWf) (hc : s.Counted) {id : ℕ}
    (halive : (s.threads id).alive = true) (type : ℕ) :
    (s.registerThread id type).Counted ↔ ∀ level,
      (if (s.threads id).isSub = false ∧ s.conWait (prioOfType type) = true ∧
        prioOfType type = level then 1 else 0) + (if s.RegisteredAt level id then 1 else 0) =
      if prioOfType type = level then 1 else 0 := by
  have hcount := count_register (hs.created id halive) (registeredAt_register type halive)
  refine forall_congr' fun level => ?_
  rw [threadCount_register halive, next_register]
  have hl := hcount level
  have hcl := hc level
  omega

/-- Without counters no thread is counted, so none has registered. -/
theorem not_registeredAt_of_not_inited (hs : s.CountWf) (hc : s.Counted) {level id : ℕ}
    (hno : ¬ s.conWait level = true) : ¬ s.RegisteredAt level id := by
  intro hreg
  have hpos := Nat.count_strict_mono hreg (hs.created id hreg.1)
  have hzero := hs.counters level (by simpa using hno)
  rw [hc] at hzero
  omega

/-- A REGISTER keeps the counters right exactly when its counter is allocated, and it
does not change the type of a registered client. -/
theorem counted_register_iff (hs : s.CountWf) (hc : s.Counted) {id : ℕ}
    (halive : (s.threads id).alive = true) (type : ℕ) :
    (s.registerThread id type).Counted ↔
      s.conWait (prioOfType type) = true ∧ ((s.threads id).registered = true →
        (s.threads id).isSub = true ∧ (s.threads id).prio = prioOfType type) := by
  rw [counted_register_iff_levels hs hc halive]
  constructor
  · intro h
    have hinit : s.conWait (prioOfType type) = true := by
      by_contra hno
      have hp := h (prioOfType type)
      rw [if_pos rfl, if_neg fun hx => hno hx.2.1,
        if_neg (not_registeredAt_of_not_inited hs hc hno)] at hp
      omega
    refine ⟨hinit, fun hreg => ?_⟩
    have hp := h (s.threads id).prio
    rw [if_pos ((registeredAt_iff halive _).mpr ⟨hreg, rfl⟩)] at hp
    have hprio : prioOfType type = (s.threads id).prio := by
      by_contra hne
      rw [if_neg hne] at hp
      omega
    refine ⟨?_, hprio.symm⟩
    by_contra hsub
    rw [if_pos hprio, if_pos ⟨by simpa using hsub, hinit, hprio⟩] at hp
    omega
  · rintro ⟨hinit, hkeep⟩ level
    by_cases hreg : (s.threads id).registered = true
    · obtain ⟨hsub, hprio⟩ := hkeep hreg
      have hlevel : s.RegisteredAt level id ↔ prioOfType type = level := by
        rw [registeredAt_iff halive, hprio, and_iff_right hreg]
      simp only [hsub, Bool.true_eq_false, false_and, if_false, hlevel, Nat.zero_add]
    · have hsub : (s.threads id).isSub = false := by
        by_contra hx
        exact hreg (hs.sub id (by simpa using hx))
      have hnot : ¬ s.RegisteredAt level id := fun hx =>
        hreg ((registeredAt_iff halive level).mp hx).1
      simp only [hsub, hinit, true_and, if_neg hnot, Nat.add_zero]

theorem threadCount_exit {id : ℕ}
    (hid : (s.threads id).alive = true ∧ ((s.threads id).pc = .start ∨ (s.threads id).pc = .wait))
    (level : ℕ) :
    (s.netThreadExit id).threadCount level =
      s.threadCount level -
        if s.conWait (s.threads id).prio = true ∧ (s.threads id).prio = level then 1 else 0 := by
  unfold netThreadExit netThreadCountSub
  rw [if_pos hid]
  by_cases hinit : s.conWait (s.threads id).prio = true
  · simp only [hinit, if_true, onThread, true_and]
    by_cases hlevel : (s.threads id).prio = level
    · subst hlevel
      simp
    · rw [Function.update_of_ne fun h => hlevel h.symm, if_neg hlevel, Nat.sub_zero]
  · simp [hinit, onThread]

theorem registeredAt_exit {id : ℕ}
    (hid : (s.threads id).alive = true ∧ ((s.threads id).pc = .start ∨ (s.threads id).pc = .wait))
    (level k : ℕ) :
    (s.netThreadExit id).RegisteredAt level k ↔ k ≠ id ∧ s.RegisteredAt level k := by
  rw [registeredAt_update (threads_exit hid)]
  split_ifs with hk
  · simp [hk]
  · simp [hk, RegisteredAt]

/-- The end of a thread keeps the counters right exactly when the thread is counted, or nothing is
there to be taken off. -/
theorem counted_exit_iff (hs : s.CountWf) (hc : s.Counted) {id : ℕ}
    (hid : (s.threads id).alive = true ∧
      ((s.threads id).pc = .start ∨ (s.threads id).pc = .wait)) :
    (s.netThreadExit id).Counted ↔
      (s.threads id).registered = true ∨ s.threadCount (s.threads id).prio = 0 := by
  have hlt := hs.created id hid.1
  have hother (level k : ℕ) (hk : k ≠ id) :
      s.RegisteredAt level k ↔ (s.netThreadExit id).RegisteredAt level k := by
    rw [registeredAt_exit hid, and_iff_right hk]
  have hgone (level : ℕ) : ¬ (s.netThreadExit id).RegisteredAt level id := fun h =>
    ((registeredAt_exit hid level id).mp h).1 rfl
  have hkept (level : ℕ) (hnot : ¬ s.RegisteredAt level id) :
      Nat.count ((s.netThreadExit id).RegisteredAt level) s.next =
        Nat.count (s.RegisteredAt level) s.next := by
    refine Tally.count_eq_of_iff fun k _ => ?_
    by_cases hk : k = id
    · subst hk
      exact iff_of_false (hgone level) hnot
    · exact (hother level k hk).symm
  have hprio : s.RegisteredAt (s.threads id).prio id ↔ (s.threads id).registered = true :=
    (registeredAt_iff hid.1 _).trans (and_iff_left rfl)
  constructor
  · intro hafter
    by_contra hno
    obtain ⟨hreg, hpos⟩ := not_or.mp hno
    have hinit : s.conWait (s.threads id).prio = true := by
      by_contra hx
      exact hpos (hs.counters _ (by simpa using hx))
    have h := hafter (s.threads id).prio
    rw [threadCount_exit hid, if_pos ⟨hinit, rfl⟩, next_exit,
      hkept _ fun hx => hreg (hprio.mp hx), ← hc] at h
    omega
  · intro hok level
    rw [threadCount_exit hid, next_exit]
    by_cases hreg : s.RegisteredAt level id
    · have hloss := Tally.count_of_loss hlt hreg (hgone level) (hother level)
      have hinit : s.conWait (s.threads id).prio = true := by
        by_contra hno
        rw [hreg.2.2] at hno
        exact not_registeredAt_of_not_inited hs hc hno hreg
      rw [if_pos ⟨hinit, hreg.2.2⟩, hc level]
      omega
    · rw [hkept level hreg, ← hc level]
      split_ifs with hlevel
      · obtain ⟨-, rfl⟩ := hlevel
        obtain hx | hx := hok
        · exact absurd (hprio.mpr hx) hreg
        · rw [hx]
      · rfl

end Steps

/-! ### Runs -/

/-- A step keeps the counters right exactly when it meets the condition. -/
theorem counted_step_iff {s : ThreadSys} (hs : s.CountWf) (hc : s.Counted) (op : ThreadOp) :
    (s.step op).Counted ↔ s.CountStep op := by
  by_cases hop : ChangesCounts op
  · cases op with
    | connect created =>
      refine iff_of_true ?_ trivial
      cases created with
      | true => exact counted_connect hc
      | false => exact hc
    | conInit id => exact counted_conInit_iff hc id
    | clear id => exact iff_of_true (counted_clear hc id) trivial
    | register id type =>
      dsimp only [step, CountStep]
      by_cases halive : (s.threads id).alive = true
      · rw [counted_register_iff hs hc halive type, forall_prop_of_true halive]
      · rw [registerThread, if_neg halive]
        exact iff_of_true hc fun h => absurd h halive
    | disconnect id =>
      dsimp only [step, CountStep]
      by_cases hid : (s.threads id).alive = true ∧
          ((s.threads id).pc = .start ∨ (s.threads id).pc = .wait)
      · rw [counted_exit_iff hs hc hid, forall_prop_of_true hid]
      · rw [netThreadExit, if_neg hid]
        exact iff_of_true hc fun h => absurd h hid
    | _ => exact hop.elim
  · have hmeets : s.CountStep op := by
      cases op with
      | conInit id => exact absurd trivial hop
      | register id type => exact absurd trivial hop
      | disconnect id => exact absurd trivial hop
      | _ => trivial
    exact iff_of_true ((sameCounts_step s hop).counted.mpr hc) hmeets

/-- A change of one thread. -/
theorem CountWf.of_update {s s' : ThreadSys} {id : ℕ} {t : NetThread} (hs : s.CountWf)
    (hthreads : s'.threads = Function.update s.threads id t) (hnext : s.next ≤ s'.next)
    (halive : t.alive = true → id < s'.next) (hsub : t.isSub = true → t.registered = true)
    (hcounters : ∀ level, s'.conWait level = false → s'.threadCount level = 0) : s'.CountWf := by
  refine ⟨fun i hi => ?_, fun i hi => ?_, hcounters⟩
  · rw [hthreads] at hi
    by_cases hin : i = id
    · subst hin
      rw [Function.update_self] at hi
      exact halive hi
    · rw [Function.update_of_ne hin] at hi
      exact lt_of_lt_of_le (hs.created i hi) hnext
  · rw [hthreads] at hi ⊢
    by_cases hin : i = id
    · subst hin
      rw [Function.update_self] at hi ⊢
      exact hsub hi
    · rw [Function.update_of_ne hin] at hi ⊢
      exact hs.sub i hi

theorem countWf_step {s : ThreadSys} (hs : s.CountWf) (op : ThreadOp) : (s.step op).CountWf := by
  by_cases hop : ChangesCounts op
  · cases op with
    | connect created =>
      cases created with
      | true =>
        have hcreated : s.netThreadCreateContext.CountWf :=
          hs.of_update rfl (Nat.le_succ _) (fun _ => Nat.lt_succ_self _)
            (fun h => Bool.noConfusion h) hs.counters
        exact hcreated
      | false => exact hs
    | conInit id =>
      dsimp only [step]
      by_cases hpc : ∃ level, (s.threads id).pc = .alloc level
      · obtain ⟨level, hpc⟩ := hpc
        refine hs.of_update (threads_conInit hpc) (next_conInit id).ge
          (fun h => lt_of_lt_of_eq (hs.created id h) (next_conInit id).symm) (hs.sub id)
          fun l hl => ?_
        rw [threadCount_conInit hpc]
        rw [conWait_conInit hpc] at hl
        by_cases hlevel : l = level
        · rw [hlevel, Function.update_self]
        · rw [Function.update_of_ne hlevel] at hl ⊢
          exact hs.counters l hl
      · rwa [conInit_of_ne (not_exists.mp hpc)]
    | clear id =>
      dsimp only [step, clearSub]
      split_ifs
      · exact hs.of_update rfl le_rfl (hs.created id) (fun h => Bool.noConfusion h) hs.counters
      · exact hs
    | register id type =>
      dsimp only [step]
      by_cases halive : (s.threads id).alive = true
      · refine hs.of_update (threads_register halive) (next_register id type).ge
          (fun _ => lt_of_lt_of_eq (hs.created id halive) (next_register id type).symm)
          (fun _ => rfl) fun level h => ?_
        have hinit : s.conWait level = false :=
          (congrFun (conWait_register id type) level).symm.trans h
        rw [threadCount_register halive, hs.counters level hinit, if_neg]
        rintro ⟨-, htrue, rfl⟩
        exact absurd (hinit.symm.trans htrue) Bool.false_ne_true
      · rw [registerThread, if_neg halive]
        exact hs
    | disconnect id =>
      dsimp only [step]
      by_cases hid : (s.threads id).alive = true ∧
          ((s.threads id).pc = .start ∨ (s.threads id).pc = .wait)
      · refine hs.of_update (threads_exit hid) (next_exit id).ge (fun h => Bool.noConfusion h)
          (hs.sub id) fun level h => ?_
        have hinit : s.conWait level = false := (congrFun (conWait_exit id) level).symm.trans h
        rw [threadCount_exit hid, hs.counters level hinit, Nat.zero_sub]
      · rw [netThreadExit, if_neg hid]
        exact hs
    | _ => exact hop.elim
  · exact (sameCounts_step s hop).countWf hs

theorem countWf_start : CountWf {} :=
  ⟨fun _ hi => Bool.noConfusion hi, fun _ hi => Bool.noConfusion hi, fun _ _ => rfl⟩

/-- **The counters along a run** are the numbers of registered threads in every state reached
exactly when every counter is allocated while no thread is counted in it, every REGISTER comes when
the counter of its priority is allocated and does not change the type of a registered client, and
every client that disconnects has registered, or no thread is counted at its priority. -/
theorem counted_iff (ops : List ThreadOp) :
    (∀ pre, pre <+: ops → (run pre).Counted) ↔
      ∀ pre op, pre ++ [op] <+: ops → (run pre).CountStep op := by
  have hcounted : Counted {} := fun _ => rfl
  exact forall_states_iff ⟨countWf_start, hcounted⟩ (fun _ op hs => countWf_step hs op)
    (fun _ op hs hc => counted_step_iff hs hc op) ops

/-- Two threads find `have_inited` zero: the client of the first one is counted at priority zero
before the second one allocates the counters again. -/
example : ¬ (run [.connect true, .connect true, .init 0, .init 1, .conInit 0, .conInit 0, .clear 0,
    .register 0 1, .conInit 1]).Counted := by
  intro h
  exact absurd (h 0) (by decide)

/-- A client registers with type one and then with type two: it is still counted at priority zero.
-/
theorem not_counted_second_register :
    ¬ (run [.connect true, .init 0, .conInit 0, .conInit 0, .clear 0, .register 0 1,
      .register 0 2]).Counted := by
  intro h
  exact absurd (h 0) (by decide)

end ThreadSys

end M57Card.Net
