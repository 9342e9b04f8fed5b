import M57Card.Lib.Runs
import M57Card.Net.Threads

/-!
# A broadcast as a barrier

When `net_thread_con_broadcast` returns without a timeout, its caller clears the vectors and hands
the DMA blocks back, so every thread that the broadcast has notified should have walked through
them.

The reports are a plain number for each priority, set to zero at the end of a wait. It is a barrier
when every report that comes in belongs to the round: at the start of a round no report is left and
no thread of the priority still has one to make, which a timed-out round leaves behind; no client
changes its priority while its thread has a report to make; and the counter `thread_count`, of which
the minimum with the number of notified threads is taken, is not smaller than that number. A counter
that is allocated again in a round loses reports, so that the round can time out, but it does not
end early.

## Main definitions

* `ThreadSys.BarrierStep` : the steps under which the reports belong to the round.
* `ThreadSys.Returns` : a step that ends a broadcast without a timeout.
* `ThreadSys.AllServed` : the threads that it has notified have walked through the vectors.
* `ThreadSys.BarrierInv` : the invariant.

## Main results

* `allServed_of_returns` : a run of such steps is a barrier.
-/

namespace M57Card.Net

/-- The thread is in `_thread_init` or in `_net_thread_wait`. -/
def ThreadPc.Outside : ThreadPc → Prop
  | .dispatch _ | .over => False
  | _ => True

/-- The thread has been notified, and has not reported yet. -/
def NetThread.Pending (t : NetThread) : Prop :=
  t.isWait = false ∨ (∃ ch, t.pc = .dispatch ch) ∨ t.pc = .over

/-- A pending thread, notified after `w` wakes, stands before its walk, in it, or behind it. -/
inductive NetThread.Owes (t : NetThread) (w : ℕ) : Prop where
  | before (hwait : t.isWait = false) (hpc : t.pc.Outside) (hwakes : t.wakes = w)
      (hovers : t.overs = w)
  | during (hwait : t.isWait = true) (hpc : t.pc = .dispatch (getChannelByPrio t.prio))
      (hwakes : t.wakes = w + 1) (hovers : t.overs = w)
  | after (hwait : t.isWait = true) (hpc : t.pc = .over) (hwakes : t.wakes = w + 1)
      (hovers : t.overs = w) (hserved : (w + 1, getChannelByPrio t.prio) ∈ t.served)

/-- How a thread stands in the rounds, where `notified prio` is the number of wakes at which the
round of `prio` has notified it. A pending thread is notified in the round of its priority; a thread
that is notified in a round and is not pending there has reported, after a walk. -/
structure NetThread.InRounds (notified : ℕ → Option ℕ) (t : NetThread) : Prop where
  ended : t.alive = false → t.pc.Outside
  pending : t.alive = true → t.Pending → ∃ w, notified t.prio = some w ∧ t.Owes w
  rest : t.alive = true → ¬ t.Pending → t.wakes = t.overs
  settled : ∀ prio w, t.alive = true → notified prio = some w →
    (prio = t.prio ∧ t.Pending) ∨ w < t.overs
  served : ∀ prio w, notified prio = some w → w < t.overs →
    ∃ k, w < k ∧ (k, getChannelByPrio prio) ∈ t.served

namespace NetThread

variable {notified : ℕ → Option ℕ} {t : NetThread}

/-- The priority and the subscription of a thread, outside of a walk. -/
theorem InRounds.register {prio : ℕ}
    (ht : t.InRounds notified) (hprio : ¬ t.Pending ∨ t.prio = prio) :
    ({ t with prio := prio, isSub := true, registered := true } : NetThread).InRounds notified := by
  obtain hrest | rfl := hprio
  · refine ⟨ht.ended, fun _ h => absurd h hrest, ht.rest, fun p w halive hw => ?_, ht.served⟩
    exact Or.inr ((ht.settled p w halive hw).resolve_left fun h => hrest h.2)
  · refine ⟨ht.ended, fun halive h => ?_, ht.rest, ht.settled, ht.served⟩
    obtain ⟨w, hw, howes⟩ := ht.pending halive h
    refine ⟨w, hw, ?_⟩
    cases howes with
    | before h₁ h₂ h₃ h₄ => exact .before h₁ h₂ h₃ h₄
    | during h₁ h₂ h₃ h₄ => exact .during h₁ h₂ h₃ h₄
    | after h₁ h₂ h₃ h₄ h₅ => exact .after h₁ h₂ h₃ h₄ h₅

/-- A thread that is about to report. -/
theorem InRounds.report (ht : t.InRounds notified) (hpc : t.pc = .over) : t.alive = true ∧
    ∃ w, notified t.prio = some w ∧ t.isWait = true ∧ t.overs = w ∧
      ∀ prio w', prio ≠ t.prio → notified prio = some w' → w' < w := by
  have halive : t.alive = true := by
    by_contra hdead
    have hended := ht.ended (by simpa using hdead)
    rw [hpc] at hended
    exact hended
  obtain ⟨w, hw, howes⟩ := ht.pending halive (Or.inr (Or.inr hpc))
  refine ⟨halive, w, hw, ?_⟩
  cases howes with
  | before _ hpc' =>
    rw [hpc] at hpc'
    exact hpc'.elim
  | during _ hpc' =>
    rw [hpc] at hpc'
    simp at hpc'
  | after hwait _ _ hovers _ =>
    refine ⟨hwait, hovers, fun prio w' hne hw' => ?_⟩
    have hdone := (ht.settled prio w' halive hw').resolve_left fun h => hne h.1
    rwa [hovers] at hdone

/-- The report of a thread. -/
theorem InRounds.conOver (ht : t.InRounds notified) (hpc : t.pc = .over) :
    ({ t with pc := .wait, overs := t.overs + 1 } : NetThread).InRounds notified := by
  obtain ⟨halive, w, hw, hwait, hovers, hold⟩ := ht.report hpc
  obtain ⟨w', hw', howes⟩ := ht.pending halive (Or.inr (Or.inr hpc))
  obtain rfl : w = w' := Option.some.inj (hw.symm.trans hw')
  obtain ⟨hwakes, hserved⟩ : t.wakes = w + 1 ∧ (w + 1, getChannelByPrio t.prio) ∈ t.served := by
    cases howes with
    | before _ hpc' =>
      rw [hpc] at hpc'
      exact hpc'.elim
    | during _ hpc' =>
      rw [hpc] at hpc'
      simp at hpc'
    | after _ _ hwakes _ hserved => exact ⟨hwakes, hserved⟩
  have hrest : ¬ ({ t with pc := .wait, overs := t.overs + 1 } : NetThread).Pending := by
    simp [Pending, hwait]
  refine ⟨fun _ => trivial, fun _ h => absurd h hrest, fun _ _ => ?_, fun prio w' _ hw' => ?_,
    fun prio w' hw' hlt => ?_⟩
  · change t.wakes = t.overs + 1
    rw [hwakes, hovers]
  · right
    change w' < t.overs + 1
    by_cases hprio : prio = t.prio
    · subst hprio
      obtain rfl : w = w' := Option.some.inj (hw.symm.trans hw')
      omega
    · have := hold prio w' hprio hw'
      omega
  · by_cases hprio : prio = t.prio
    · subst hprio
      obtain rfl : w = w' := Option.some.inj (hw.symm.trans hw')
      exact ⟨w + 1, Nat.lt_succ_self w, hserved⟩
    · exact ht.served prio w' hw' (lt_of_lt_of_eq (hold prio w' hprio hw') hovers.symm)

/-- The thread leaves `_net_thread_wait`. -/
theorem InRounds.wake (ht : t.InRounds notified) (halive : t.alive = true)
    (hwait : t.isWait = false) :
    ({ t with isWait := true, pc := .dispatch (getChannelByPrio t.prio), wakes := t.wakes + 1 } :
      NetThread).InRounds notified := by
  have hpend : t.Pending := Or.inl hwait
  obtain ⟨w, hw, howes⟩ := ht.pending halive hpend
  obtain ⟨hwakes, hovers⟩ : t.wakes = w ∧ t.overs = w := by
    cases howes with
    | before _ _ hwakes hovers => exact ⟨hwakes, hovers⟩
    | during h => exact absurd (hwait.symm.trans h) Bool.false_ne_true
    | after h => exact absurd (hwait.symm.trans h) Bool.false_ne_true
  have hpend' : NetThread.Pending
      { t with isWait := true, pc := .dispatch (getChannelByPrio t.prio), wakes := t.wakes + 1 } :=
    Or.inr (Or.inl ⟨_, rfl⟩)
  refine ⟨fun h => Bool.noConfusion (halive.symm.trans h), fun _ _ => ⟨w, hw, ?_⟩,
    fun _ h => absurd hpend' h, fun prio w' _ hw' => ?_, ht.served⟩
  · exact .during rfl rfl (congrArg (· + 1) hwakes) hovers
  · exact (ht.settled prio w' halive hw').imp_left fun h => ⟨h.1, hpend'⟩

/-- The thread has walked through the vectors. -/
theorem InRounds.dispatched {ch : ℕ} (ht : t.InRounds notified) (hpc : t.pc = .dispatch ch) :
    ({ t with pc := .over, served := (t.wakes, ch) :: t.served } :
      NetThread).InRounds notified := by
  have halive : t.alive = true := by
    by_contra hdead
    have hended := ht.ended (by simpa using hdead)
    rw [hpc] at hended
    exact hended
  obtain ⟨w, hw, howes⟩ := ht.pending halive (Or.inr (Or.inl ⟨ch, hpc⟩))
  have hpend' : ({ t with pc := .over, served := (t.wakes, ch) :: t.served } : NetThread).Pending :=
    Or.inr (Or.inr rfl)
  refine ⟨fun h => Bool.noConfusion (halive.symm.trans h), fun _ _ => ⟨w, hw, ?_⟩,
    fun _ h => absurd hpend' h, fun prio w' _ hw' => ?_, fun prio w' hw' hlt => ?_⟩
  · cases howes with
    | before _ hpc' =>
      rw [hpc] at hpc'
      exact hpc'.elim
    | during hwait hpc' hwakes hovers =>
      obtain rfl : ch = getChannelByPrio t.prio := ThreadPc.dispatch.inj (hpc.symm.trans hpc')
      refine .after hwait rfl hwakes hovers ?_
      rw [hwakes]
      exact List.mem_cons_self
    | after _ hpc' =>
      rw [hpc] at hpc'
      simp at hpc'
  · exact (ht.settled prio w' halive hw').imp_left fun h => ⟨h.1, hpend'⟩
  · obtain ⟨k, hk, hmem⟩ := ht.served prio w' hw' hlt
    exact ⟨k, hk, List.mem_cons_of_mem _ hmem⟩

/-- A step of `_thread_init`. -/
theorem InRounds.init (ht : t.InRounds notified) (hpc : t.pc.Outside) {pc : ThreadPc} (isSub : Bool)
    (hpc' : pc.Outside) :
    ({ t with isSub := isSub, pc := pc } : NetThread).InRounds notified := by
  have hpend : ({ t with isSub := isSub, pc := pc } : NetThread).Pending ↔ t.Pending := by
    have hwalk {p : ThreadPc} (hp : p.Outside) : ¬ ((∃ ch, p = .dispatch ch) ∨ p = .over) := by
      rintro (⟨ch, rfl⟩ | rfl)
      · exact hp
      · exact hp
    exact or_congr_right (iff_of_false (hwalk hpc') (hwalk hpc))
  refine ⟨fun _ => hpc', fun halive h => ?_, fun halive h => ht.rest halive (hpend.not.mp h),
    fun prio w halive hw => (ht.settled prio w halive hw).imp_left fun h => ⟨h.1, hpend.mpr h.2⟩,
    ht.served⟩
  obtain ⟨w, hw, howes⟩ := ht.pending halive (hpend.mp h)
  refine ⟨w, hw, ?_⟩
  cases howes with
  | before hwait _ hwakes hovers => exact .before hwait hpc' hwakes hovers
  | during _ hwalk =>
    rw [hwalk] at hpc
    exact hpc.elim
  | after _ hwalk =>
    rw [hwalk] at hpc
    exact hpc.elim

/-- The thread ends. -/
theorem InRounds.exit (ht : t.InRounds notified) (hpc : t.pc = .start ∨ t.pc = .wait) :
    ({ t with alive := false } : NetThread).InRounds notified := by
  have hout : t.pc.Outside := by
    rcases hpc with h | h <;> rw [h] <;> trivial
  exact ⟨fun _ => hout, fun h => Bool.noConfusion h, fun h => Bool.noConfusion h,
    fun _ _ h => Bool.noConfusion h, ht.served⟩

/-- A round starts, of a priority of which no thread is pending. -/
theorem InRounds.fresh {notified' : ℕ → Option ℕ} {prio : ℕ} (ht : t.InRounds notified)
    (hprio : notified' prio = none)
    (hother : ∀ p, p ≠ prio → notified' p = notified p)
    (hquiet : t.alive = true → t.prio = prio → ¬ t.Pending) : t.InRounds notified' := by
  have hold {p w : ℕ} (hw : notified' p = some w) : notified p = some w := by
    rw [← hother p ?_, hw]
    rintro rfl
    exact absurd (hprio.symm.trans hw) (by simp)
  refine ⟨ht.ended, fun halive hpend => ?_, ht.rest, fun p w halive hw => ?_, fun p w hw => ?_⟩
  · rw [hother t.prio fun h => hquiet halive h hpend]
    exact ht.pending halive hpend
  · exact ht.settled p w halive (hold hw)
  · exact ht.served p w (hold hw)

/-- A thread that the round of its priority has not notified is notified. -/
theorem InRounds.notify {notified' : ℕ → Option ℕ} (ht : t.InRounds notified)
    (halive : t.alive = true) (hnone : notified t.prio = none)
    (hself : notified' t.prio = some t.wakes)
    (hother : ∀ p, p ≠ t.prio → notified' p = notified p) :
    ({ t with isWait := false } : NetThread).InRounds notified' := by
  have hrest : ¬ t.Pending := fun hpend => by
    obtain ⟨w, hw, -⟩ := ht.pending halive hpend
    exact absurd (hnone.symm.trans hw) (by simp)
  have hpc : t.pc.Outside := by
    match hcase : t.pc with
    | .dispatch ch => exact absurd (Or.inr (Or.inl ⟨ch, hcase⟩)) hrest
    | .over => exact absurd (Or.inr (Or.inr hcase)) hrest
    | .start | .alloc _ | .clear | .wait => trivial
  have hovers : t.wakes = t.overs := ht.rest halive hrest
  have hpend : ({ t with isWait := false } : NetThread).Pending := Or.inl rfl
  refine ⟨fun _ => hpc, fun _ _ => ⟨t.wakes, hself, .before rfl hpc rfl hovers.symm⟩,
    fun _ h => absurd hpend h, fun p w _ hw => ?_, fun p w hw hlt => ?_⟩
  · by_cases hp : p = t.prio
    · exact Or.inl ⟨hp, hpend⟩
    · rw [hother p hp] at hw
      exact Or.inr ((ht.settled p w halive hw).resolve_left fun h => hp h.1)
  · by_cases hp : p = t.prio
    · rw [hp, hself] at hw
      obtain rfl : t.wakes = w := Option.some.inj hw
      exact absurd (show t.wakes < t.overs from hlt) (by omega)
    · rw [hother p hp] at hw
      exact ht.served p w hw hlt

/-- The table of the client. -/
theorem InRounds.table (ht : t.InRounds notified) (hasTable : Bool) :
    ({ t with hasTable := hasTable } : NetThread).InRounds notified := by
  refine ⟨ht.ended, fun halive h => ?_, ht.rest, ht.settled, ht.served⟩
  obtain ⟨w, hw, howes⟩ := ht.pending halive h
  refine ⟨w, hw, ?_⟩
  cases howes with
  | before h₁ h₂ h₃ h₄ => exact .before h₁ h₂ h₃ h₄
  | during h₁ h₂ h₃ h₄ => exact .during h₁ h₂ h₃ h₄
  | after h₁ h₂ h₃ h₄ h₅ => exact .after h₁ h₂ h₃ h₄ h₅

end NetThread

/-- The number of clients that a round in progress has notified, as it remembers it. -/
def RoundPhase.num : RoundPhase → Option ℕ
  | .idle => none
  | .notify num => some num
  | .counted num => some num
  | .wait num => some num
  | .waitOld num _ => some num

/-- The number of reports that a round looks at, if the counter of its priority has `count`. -/
def RoundPhase.seen (count : ℕ) : RoundPhase → ℕ
  | .waitOld _ old => old
  | _ => count

namespace ThreadSys

/-- A round starts when no report is left and no thread of the priority has one to make; a REGISTER
does not change the priority of a thread that has a report to make; and when the number of threads
is read, it is at least the number of notified clients. -/
def BarrierStep (s : ThreadSys) : ThreadOp → Prop
  | .broadcast ch => (s.round (getPrioByChannel ch)).phase = .idle →
      s.count (getPrioByChannel ch) = 0 ∧
      ∀ i, (s.threads i).alive = true → (s.threads i).prio = getPrioByChannel ch →
        ¬ (s.threads i).Pending
  | .register id type => (s.threads id).alive = true →
      ¬ (s.threads id).Pending ∨ (s.threads id).prio = prioOfType type
  | .countGet ch => ∀ num, (s.round (getPrioByChannel ch)).phase = .notify num → 0 < num →
      s.conWait (getPrioByChannel ch) = true ∧ num ≤ s.threadCount (getPrioByChannel ch)
  | _ => True

/-- The step is the return of the broadcast of a priority, without a timeout. -/
def Returns (s : ThreadSys) (prio : ℕ) : ThreadOp → Prop
  | .countGet ch => getPrioByChannel ch = prio ∧ ∃ num, (s.round prio).phase = .notify num ∧
      ¬ 0 < s.notifyNum prio num
  | .conWait ch => getPrioByChannel ch = prio ∧ ∃ num, (s.round prio).phase = .counted num ∧
      s.conWait prio = false
  | .waitOver ch => getPrioByChannel ch = prio ∧
      ((∃ num, (s.round prio).phase = .wait num ∧ num ≤ s.count prio) ∨
        ∃ num count, (s.round prio).phase = .waitOld num count ∧ num ≤ count)
  | _ => False

/-- Every thread notified in the round of a priority has since walked through the vectors of its
channel. -/
def AllServed (s : ThreadSys) (prio : ℕ) : Prop :=
  ∀ i w, (s.round prio).notified i = some w →
    ∃ k, w < k ∧ (k, getChannelByPrio prio) ∈ (s.threads i).served

/-- A thread is notified in the round of a priority. -/
def Notified (s : ThreadSys) (prio i : ℕ) : Prop := ((s.round prio).notified i).isSome = true

/-- A thread is notified in the round of a priority, and has reported since. -/
def Reported (s : ThreadSys) (prio i : ℕ) : Prop :=
  ((s.round prio).notified i).any (fun w => decide (w < (s.threads i).overs)) = true

instance (s : ThreadSys) (prio : ℕ) : DecidablePred (s.Notified prio) := fun i => by
  unfold Notified
  infer_instance

instance (s : ThreadSys) (prio : ℕ) : DecidablePred (s.Reported prio) := fun i => by
  unfold Reported
  infer_instance

/-- The number of reports that the round of a priority looks at. -/
def seen (s : ThreadSys) (prio : ℕ) : ℕ := (s.round prio).phase.seen (s.count prio)

/-- The invariant of runs of the steps above: every thread stands in the rounds as it should, and
in a round in progress the reports are of its threads. -/
structure BarrierInv (s : ThreadSys) : Prop where
  created : ∀ i, (s.threads i).alive = true → i < s.next
  thread : ∀ i, (s.threads i).InRounds fun prio => (s.round prio).notified i
  notified_lt : ∀ prio i, s.Notified prio i → i < s.next
  visited : ∀ prio i, s.Notified prio i → (s.round prio).visited i = true
  num : ∀ prio num, (s.round prio).phase.num = some num → num = Nat.count (s.Notified prio) s.next
  counted : ∀ prio num, (s.round prio).phase = .counted num → s.conWait prio = true
  reports : ∀ prio, (s.round prio).phase ≠ .idle →
    s.seen prio ≤ Nat.count (s.Reported prio) s.next

theorem reported_iff {s : ThreadSys} {prio i : ℕ} :
    s.Reported prio i ↔ ∃ w, (s.round prio).notified i = some w ∧ w < (s.threads i).overs := by
  unfold Reported
  cases (s.round prio).notified i with
  | none => simp
  | some w => simp

theorem notified_of_reported {s : ThreadSys} {prio i : ℕ} (h : s.Reported prio i) :
    s.Notified prio i := by
  obtain ⟨w, hw, -⟩ := reported_iff.mp h
  unfold Notified
  rw [hw]
  rfl

theorem reported_congr {s s' : ThreadSys} {prio i : ℕ} (hround : s'.round = s.round)
    (hovers : (s'.threads i).overs = (s.threads i).overs) :
    s'.Reported prio i ↔ s.Reported prio i := by
  rw [Reported, Reported, hround, hovers]

/-- The return of a broadcast. -/
theorem BarrierInv.allServed {s : ThreadSys} (hs : s.BarrierInv) {prio : ℕ} {op : ThreadOp}
    (hop : s.BarrierStep op) (hret : s.Returns prio op) : s.AllServed prio := by
  -- as many reports as notifications: every notified thread has reported
  have hall (num : ℕ) (hphase : (s.round prio).phase.num = some num)
      (hidle : (s.round prio).phase ≠ .idle) (hle : num ≤ s.seen prio) : s.AllServed prio := by
    have hreports := hle.trans (hs.reports prio hidle)
    rw [hs.num prio num hphase] at hreports
    intro i w hw
    have hnot : s.Notified prio i := by
      unfold Notified
      rw [hw]
      rfl
    have hrep := Tally.forall_of_count_le (fun _ => notified_of_reported) hreports i
      (hs.notified_lt prio i hnot) hnot
    obtain ⟨w', hw', hlt⟩ := reported_iff.mp hrep
    obtain rfl : w = w' := Option.some.inj (hw.symm.trans hw')
    exact (hs.thread i).served prio w hw hlt
  cases op with
  | countGet ch =>
    obtain ⟨rfl, num, hphase, hnone⟩ := hret
    have hzero : num = 0 := by
      by_contra hpos
      obtain ⟨hinit, hle⟩ := hop num hphase (Nat.pos_of_ne_zero hpos)
      rw [notifyNum, if_pos hinit, Nat.min_eq_right hle] at hnone
      exact hnone (Nat.pos_of_ne_zero hpos)
    subst hzero
    exact hall 0 (by rw [hphase]; rfl) (by rw [hphase]; simp) (Nat.zero_le _)
  | conWait ch =>
    obtain ⟨rfl, num, hphase, hnone⟩ := hret
    exact absurd (hnone.symm.trans (hs.counted _ num hphase)) Bool.false_ne_true
  | waitOver ch =>
    obtain ⟨rfl, ⟨num, hphase, hle⟩ | ⟨num, count, hphase, hle⟩⟩ := hret
    · refine hall num (by rw [hphase]; rfl) (by rw [hphase]; simp) ?_
      rw [seen, hphase]
      exact hle
    · refine hall num (by rw [hphase]; rfl) (by rw [hphase]; simp) ?_
      rw [seen, hphase]
      exact hle
  | _ => exact hret.elim

/-! ### Steps of one thread -/

section Steps

variable {s : ThreadSys}

theorem seen_congr {s' : ThreadSys} {prio : ℕ} (hround : s'.round prio = s.round prio)
    (hcount : s'.count prio = s.count prio) : s'.seen prio = s.seen prio := by
  rw [seen, seen, hround, hcount]

/-- A change of one thread, with the same rounds. -/
theorem BarrierInv.of_update {s' : ThreadSys} {id : ℕ} {t : NetThread} (hs : s.BarrierInv)
    (hthreads : s'.threads = Function.update s.threads id t) (hround : s'.round = s.round)
    (hnext : s'.next = s.next) (hconWait : s'.conWait = s.conWait)
    (hcreated : t.alive = true → id < s.next)
    (ht : t.InRounds fun prio => (s.round prio).notified id)
    (hreports : ∀ prio, (s.round prio).phase ≠ .idle →
      s'.seen prio ≤ Nat.count (s'.Reported prio) s.next) : s'.BarrierInv := by
  have hnot (prio i : ℕ) : s'.Notified prio i ↔ s.Notified prio i := by
    rw [Notified, Notified, hround]
  refine ⟨fun i hi => ?_, fun i => ?_, fun prio i hi => ?_, fun prio i hi => ?_,
    fun prio num hnum => ?_, fun prio num hphase => ?_, fun prio hphase => ?_⟩
  · rw [hthreads] at hi
    rw [hnext]
    by_cases hid : i = id
    · subst hid
      rw [Function.update_self] at hi
      exact hcreated hi
    · rw [Function.update_of_ne hid] at hi
      exact hs.created i hi
  · rw [hthreads, hround]
    by_cases hid : i = id
    · subst hid
      rwa [Function.update_self]
    · rw [Function.update_of_ne hid]
      exact hs.thread i
  · rw [hnext]
    exact hs.notified_lt prio i ((hnot prio i).mp hi)
  · rw [hround]
    exact hs.visited prio i ((hnot prio i).mp hi)
  · rw [hround] at hnum
    rw [hs.num prio num hnum, hnext]
    exact Tally.count_eq_of_iff fun k _ => (hnot prio k).symm
  · rw [hround] at hphase
    rw [hconWait]
    exact hs.counted prio num hphase
  · rw [hround] at hphase
    rw [hnext]
    exact hreports prio hphase

/-- A change of one thread that is no report. -/
theorem BarrierInv.of_overs {s' : ThreadSys} {id : ℕ} {t : NetThread} (hs : s.BarrierInv)
    (hthreads : s'.threads = Function.update s.threads id t) (hround : s'.round = s.round)
    (hnext : s'.next = s.next) (hconWait : s'.conWait = s.conWait) (hcount : s'.count = s.count)
    (hcreated : t.alive = true → id < s.next)
    (ht : t.InRounds fun prio => (s.round prio).notified id)
    (hovers : t.overs = (s.threads id).overs) : s'.BarrierInv := by
  refine hs.of_update hthreads hround hnext hconWait hcreated ht fun prio hphase => ?_
  rw [seen_congr (congrFun hround prio) (congrFun hcount prio)]
  refine (hs.reports prio hphase).trans_eq ?_
  refine Tally.count_eq_of_iff fun k _ => (reported_congr hround ?_).symm
  rw [hthreads]
  by_cases hid : k = id
  · rw [hid, Function.update_self, hovers]
  · rw [Function.update_of_ne hid]

theorem threads_create_self : s.netThreadCreateContext.threads s.next = { alive := true } :=
  Function.update_self ..

theorem threads_create_of_ne {i : ℕ} (hi : i ≠ s.next) :
    s.netThreadCreateContext.threads i = s.threads i :=
  Function.update_of_ne hi ..

/-- The thread of a new client. -/
theorem BarrierInv.netThreadCreateContext (hs : s.BarrierInv) :
    s.netThreadCreateContext.BarrierInv := by
  have hnone (prio : ℕ) : ¬ s.Notified prio s.next := fun h =>
    lt_irrefl _ (hs.notified_lt prio _ h)
  have hnotified (prio : ℕ) : (s.round prio).notified s.next = none := by
    simpa [Notified] using hnone prio
  have hreported (prio k : ℕ) : s.netThreadCreateContext.Reported prio k ↔ s.Reported prio k := by
    by_cases hk : k = s.next
    · subst hk
      refine iff_of_false (fun h => ?_) fun h => hnone prio (notified_of_reported h)
      have hfresh : s.netThreadCreateContext.Notified prio s.next := notified_of_reported h
      exact hnone prio hfresh
    · exact reported_congr rfl (by rw [threads_create_of_ne hk])
  have hsucc {p : ℕ → Prop} [DecidablePred p] (hp : ¬ p s.next) :
      Nat.count p (s.next + 1) = Nat.count p s.next := by
    rw [Nat.count_succ, if_neg hp, Nat.add_zero]
  refine ⟨fun i hi => ?_, fun i => ?_,
    fun prio i hi => Nat.lt_succ_of_lt (hs.notified_lt prio i hi), hs.visited,
    fun prio num hnum => ?_, hs.counted, fun prio hphase => ?_⟩
  · by_cases hid : i = s.next
    · exact lt_of_eq_of_lt hid (Nat.lt_succ_self _)
    · rw [threads_create_of_ne hid] at hi
      exact Nat.lt_succ_of_lt (hs.created i hi)
  · by_cases hid : i = s.next
    · subst hid
      have hfresh : ¬ ({ alive := true } : NetThread).Pending := by simp [NetThread.Pending]
      rw [threads_create_self]
      change NetThread.InRounds (fun prio => (s.round prio).notified s.next) _
      simp only [hnotified]
      exact ⟨fun _ => trivial, fun _ h => absurd h hfresh, fun _ _ => rfl,
        fun _ _ _ h => absurd h (by simp), fun _ _ h => absurd h (by simp)⟩
    · rw [threads_create_of_ne hid]
      exact hs.thread i
  · exact (hs.num prio num hnum).trans (hsucc (hnone prio)).symm
  · calc s.seen prio ≤ Nat.count (s.Reported prio) s.next := hs.reports prio hphase
      _ = Nat.count (s.Reported prio) (s.next + 1) :=
        (hsucc fun h => hnone prio (notified_of_reported h)).symm
      _ = _ := Tally.count_eq_of_iff fun k _ => (hreported prio k).symm

section ConOver

variable {id : ℕ}

theorem threads_conOver (hpc : (s.threads id).pc = .over) : (s.threadConOver id).threads =
    Function.update s.threads id
      { s.threads id with pc := .wait, overs := (s.threads id).overs + 1 } := by
  rw [threadConOver, if_pos hpc]
  rfl

theorem count_conOver (hpc : (s.threads id).pc = .over) : (s.threadConOver id).count =
    Function.update s.count (s.threads id).prio (s.count (s.threads id).prio + 1) := by
  rw [threadConOver, if_pos hpc]

theorem round_conOver (hpc : (s.threads id).pc = .over) : (s.threadConOver id).round = s.round := by
  rw [threadConOver, if_pos hpc]
  rfl

theorem next_conOver (hpc : (s.threads id).pc = .over) : (s.threadConOver id).next = s.next := by
  rw [threadConOver, if_pos hpc]
  rfl

theorem conWait_conOver (hpc : (s.threads id).pc = .over) :
    (s.threadConOver id).conWait = s.conWait := by
  rw [threadConOver, if_pos hpc]
  rfl

/-- A report counts for a round that looks at the counter of its priority. -/
theorem seen_conOver_le (hpc : (s.threads id).pc = .over) :
    (s.threadConOver id).seen (s.threads id).prio ≤ s.seen (s.threads id).prio + 1 := by
  rw [seen, seen, round_conOver hpc, count_conOver hpc, Function.update_self]
  cases (s.round (s.threads id).prio).phase with
  | waitOld num old => exact Nat.le_succ old
  | _ => exact Nat.le_refl _

/-- `_net_thread_con_over`: the report belongs to the round that has notified the thread. -/
theorem BarrierInv.conOver (hs : s.BarrierInv) (hpc : (s.threads id).pc = .over) :
    (s.threadConOver id).BarrierInv := by
  have ht := hs.thread id
  obtain ⟨halive, w, hw, -, hovers, hold⟩ := ht.report hpc
  have hid := hs.created id halive
  refine hs.of_update (threads_conOver hpc) (round_conOver hpc) (next_conOver hpc)
    (conWait_conOver hpc) (fun _ => hid) (ht.conOver hpc) fun prio hphase => ?_
  have hself : (s.threadConOver id).Reported prio id ↔
      ∃ w', (s.round prio).notified id = some w' ∧ w' < w + 1 := by
    rw [reported_iff, round_conOver hpc, threads_conOver hpc, Function.update_self, ← hovers]
  have hother (k : ℕ) (hk : k ≠ id) :
      s.Reported prio k ↔ (s.threadConOver id).Reported prio k := by
    refine (reported_congr (round_conOver hpc) ?_).symm
    rw [threads_conOver hpc, Function.update_of_ne hk]
  by_cases hprio : prio = (s.threads id).prio
  · subst hprio
    have hbefore : ¬ s.Reported (s.threads id).prio id := by
      rw [reported_iff]
      rintro ⟨w', hw', hlt⟩
      obtain rfl : w = w' := Option.some.inj (hw.symm.trans hw')
      omega
    rw [Tally.count_of_gain hid hbefore (hself.mpr ⟨w, hw, Nat.lt_succ_self w⟩) hother]
    exact (seen_conOver_le hpc).trans (Nat.succ_le_succ (hs.reports _ hphase))
  · -- in the round of another priority the thread has reported before
    have hcount : (s.threadConOver id).count prio = s.count prio := by
      rw [count_conOver hpc, Function.update_of_ne hprio]
    rw [seen_congr (congrFun (round_conOver hpc) prio) hcount]
    refine (hs.reports prio hphase).trans_eq ?_
    refine Tally.count_eq_of_iff fun k _ => ?_
    by_cases hk : k = id
    · subst hk
      rw [hself, reported_iff, hovers]
      refine exists_congr fun w' => and_congr_right fun hw' => ?_
      exact iff_of_true (hold prio w' hprio hw') (Nat.lt_succ_of_lt (hold prio w' hprio hw'))
    · exact hother k hk

end ConOver

/-! ### Steps of a round -/

/-- A step that notifies no thread, and leaves the reports of the rounds still in progress. -/
theorem BarrierInv.of_rounds {s' : ThreadSys} (hs : s.BarrierInv)
    (hthreads : s'.threads = s.threads) (hnext : s'.next = s.next)
    (hnotified : ∀ p, (s'.round p).notified = (s.round p).notified)
    (hvisited : ∀ p i, (s.round p).visited i = true → (s'.round p).visited i = true)
    (hnum : ∀ p num, (s'.round p).phase.num = some num → (s.round p).phase.num = some num)
    (hcounted : ∀ p num, (s'.round p).phase = .counted num → s'.conWait p = true)
    (hseen : ∀ p, (s'.round p).phase ≠ .idle →
      (s.round p).phase ≠ .idle ∧ s'.seen p ≤ s.seen p) : s'.BarrierInv := by
  have hnot (p i : ℕ) : s'.Notified p i ↔ s.Notified p i := by
    rw [Notified, Notified, hnotified]
  have hrep (p i : ℕ) : s'.Reported p i ↔ s.Reported p i := by
    rw [Reported, Reported, hnotified, hthreads]
  refine ⟨fun i hi => ?_, fun i => ?_, fun p i hi => ?_, fun p i hi => ?_, fun p num hp => ?_,
    hcounted, fun p hp => ?_⟩
  · rw [hthreads] at hi
    exact hnext ▸ hs.created i hi
  · rw [hthreads]
    simp only [hnotified]
    exact hs.thread i
  · exact hnext ▸ hs.notified_lt p i ((hnot p i).mp hi)
  · exact hvisited p i (hs.visited p i ((hnot p i).mp hi))
  · rw [hnext, Tally.count_eq_of_iff fun k _ => hnot p k]
    exact hs.num p num (hnum p num hp)
  · obtain ⟨hold, hle⟩ := hseen p hp
    rw [hnext, Tally.count_eq_of_iff fun k _ => hrep p k]
    exact hle.trans (hs.reports p hold)

/-- A round in progress goes on, or ends. -/
theorem BarrierInv.of_phase {s' : ThreadSys} {prio : ℕ} {phase : RoundPhase} (hs : s.BarrierInv)
    (hthreads : s'.threads = s.threads) (hnext : s'.next = s.next)
    (hconWait : s'.conWait = s.conWait)
    (hround : s'.round = Function.update s.round prio { s.round prio with phase := phase })
    (hbefore : (s.round prio).phase ≠ .idle)
    (hnum : ∀ num, phase.num = some num → (s.round prio).phase.num = some num)
    (hcounted : ∀ num, phase = .counted num → s.conWait prio = true)
    (hseen : phase ≠ .idle → phase.seen (s'.count prio) ≤ s.seen prio)
    (hcount : ∀ p, p ≠ prio → s'.count p = s.count p) : s'.BarrierInv := by
  have hself : s'.round prio = { s.round prio with phase := phase } := by
    rw [hround, Function.update_self]
  have hother (p : ℕ) (hp : p ≠ prio) : s'.round p = s.round p := by
    rw [hround, Function.update_of_ne hp]
  have hsame (p : ℕ) : (s'.round p).notified = (s.round p).notified ∧
      (s'.round p).visited = (s.round p).visited := by
    by_cases hp : p = prio
    · rw [hp, hself]
      exact ⟨rfl, rfl⟩
    · rw [hother p hp]
      exact ⟨rfl, rfl⟩
  refine hs.of_rounds hthreads hnext (fun p => (hsame p).1) (fun p i hi => (hsame p).2 ▸ hi)
    (fun p num hp => ?_) (fun p num hp => ?_) fun p hp => ?_
  · by_cases hpp : p = prio
    · subst hpp
      rw [hself] at hp
      exact hnum num hp
    · rwa [hother p hpp] at hp
  · rw [hconWait]
    by_cases hpp : p = prio
    · subst hpp
      rw [hself] at hp
      exact hcounted num hp
    · rw [hother p hpp] at hp
      exact hs.counted p num hp
  · by_cases hpp : p = prio
    · subst hpp
      rw [hself] at hp
      refine ⟨hbefore, ?_⟩
      rw [seen, hself]
      exact hseen hp
    · have hle := (seen_congr (hother p hpp) (hcount p hpp)).le
      rw [hother p hpp] at hp
      exact ⟨hp, hle⟩

theorem BarrierInv.countGet (hs : s.BarrierInv) {ch : ℕ} (hop : s.BarrierStep (.countGet ch)) :
    (s.countGet ch).BarrierInv := by
  unfold ThreadSys.countGet
  dsimp only
  split
  case h_1 num hphase =>
    have hkeep (hpos : 0 < s.notifyNum (getPrioByChannel ch) num) :
        s.conWait (getPrioByChannel ch) = true ∧ s.notifyNum (getPrioByChannel ch) num = num := by
      have hnum : 0 < num := by
        refine lt_of_lt_of_le hpos ?_
        unfold notifyNum
        split_ifs
        · exact Nat.min_le_right _ _
        · exact Nat.le_refl _
      obtain ⟨hinit, hle⟩ := hop num hphase hnum
      refine ⟨hinit, ?_⟩
      rw [notifyNum, if_pos hinit, Nat.min_eq_right hle]
    refine hs.of_phase rfl rfl rfl rfl (by rw [hphase]; simp) (fun n hn => ?_) (fun n hn => ?_)
      (fun hidle => ?_) fun _ _ => rfl
    · rw [hphase]
      split_ifs at hn with hpos
      · rwa [(hkeep hpos).2] at hn
      · exact absurd hn (by simp [RoundPhase.num])
    · split_ifs at hn with hpos
      exact (hkeep hpos).1
    · rw [seen, hphase]
      split_ifs at hidle ⊢
      · exact Nat.le_refl _
      · exact absurd rfl hidle
  case h_2 => exact hs

theorem BarrierInv.conWaitTimeout (hs : s.BarrierInv) (ch : ℕ) :
    (s.conWaitTimeout ch).BarrierInv := by
  unfold ThreadSys.conWaitTimeout
  dsimp only
  split
  case h_1 num hphase =>
    rw [if_pos (hs.counted _ num hphase)]
    refine hs.of_phase rfl rfl rfl rfl (by rw [hphase]; simp) (fun n hn => ?_)
      (fun n hn => absurd hn (by simp)) (fun _ => ?_) fun _ _ => rfl
    · rwa [hphase]
    · rw [seen, hphase]
      exact Nat.le_refl _
  case h_2 => exact hs

/-- The end of a wait. -/
theorem BarrierInv.waited (hs : s.BarrierInv) {prio : ℕ} (hphase : (s.round prio).phase ≠ .idle) :
    (s.waited prio).BarrierInv :=
  hs.of_phase rfl rfl rfl rfl hphase (fun _ hn => absurd hn (by simp [RoundPhase.num]))
    (fun _ hn => absurd hn (by simp)) (fun h => absurd rfl h)
    fun _ hp => Function.update_of_ne hp ..

theorem BarrierInv.waitedOld (hs : s.BarrierInv) {prio : ℕ}
    (hphase : (s.round prio).phase ≠ .idle) : (s.waitedOld prio).BarrierInv :=
  hs.of_phase rfl rfl rfl rfl hphase (fun _ hn => absurd hn (by simp [RoundPhase.num]))
    (fun _ hn => absurd hn (by simp)) (fun h => absurd rfl h) fun _ _ => rfl

theorem BarrierInv.waitOver (hs : s.BarrierInv) (ch : ℕ) : (s.waitOver ch).BarrierInv := by
  unfold ThreadSys.waitOver
  dsimp only
  split
  case h_1 num hphase =>
    split_ifs
    · exact hs.waited (by rw [hphase]; simp)
    · exact hs
  case h_2 num count hphase =>
    split_ifs
    · exact hs.waitedOld (by rw [hphase]; simp)
    · exact hs
  case h_3 => exact hs

theorem BarrierInv.waitTimeout (hs : s.BarrierInv) (ch : ℕ) : (s.waitTimeout ch).BarrierInv := by
  unfold ThreadSys.waitTimeout
  dsimp only
  split
  case h_1 num hphase =>
    split_ifs
    · exact hs.waited (by rw [hphase]; simp)
    · exact hs
  case h_2 num count hphase =>
    split_ifs
    · exact hs.waitedOld (by rw [hphase]; simp)
    · exact hs
  case h_3 => exact hs

theorem seen_replace_le (r : Round) (count : ℕ) :
    (r.replace count).phase.seen 0 ≤ r.phase.seen count := by
  unfold Round.replace
  cases hphase : r.phase with
  | wait num => exact Nat.le_refl _
  | waitOld num old =>
    dsimp only
    rw [hphase]
    rfl
  | _ =>
    dsimp only
    rw [hphase]
    exact Nat.zero_le _

/-- A counter is allocated again: the round of its priority looks at none of its reports, or stays
with the old counter. -/
theorem BarrierInv.netThreadConInit (hs : s.BarrierInv) (id : ℕ) :
    (s.netThreadConInit id).BarrierInv := by
  by_cases hpc : ∃ level, (s.threads id).pc = .alloc level
  swap
  · rwa [conInit_of_ne (not_exists.mp hpc)]
  obtain ⟨level, hpc⟩ := hpc
  -- first the thread, then the counter
  set pc : ThreadPc := if level + 1 < MAX_PRIO_LEVEL then .alloc (level + 1) else .clear with hnew
  have hout : pc.Outside := by
    rw [hnew]
    split_ifs <;> trivial
  have hthread : (s.onThread id fun t => { t with pc := pc }).BarrierInv :=
    hs.of_overs rfl rfl rfl rfl rfl (hs.created id)
      ((hs.thread id).init (by rw [hpc]; trivial) _ hout) rfl
  have hphase (r : Round) (count : ℕ) : (r.replace count).notified = r.notified ∧
      (r.replace count).visited = r.visited ∧ (r.replace count).phase.num = r.phase.num ∧
      ((r.replace count).phase = .idle ↔ r.phase = .idle) ∧
      ∀ num, (r.replace count).phase = .counted num → r.phase = .counted num := by
    unfold Round.replace
    split
    case h_1 num h => simp [h, RoundPhase.num]
    case h_2 => simp
  have hround := round_conInit hpc
  have hself : (s.netThreadConInit id).round level = (s.round level).replace (s.count level) := by
    rw [hround, Function.update_self]
  have hother (p : ℕ) (hp : p ≠ level) : (s.netThreadConInit id).round p = s.round p := by
    rw [hround, Function.update_of_ne hp]
  refine hthread.of_rounds (threads_conInit hpc) (next_conInit id) (fun p => ?_) (fun p i hi => ?_)
    (fun p num hp => ?_) (fun p num hp => ?_) fun p hp => ?_
  · by_cases hpl : p = level
    · rw [hpl, hself]
      exact (hphase _ _).1
    · rw [hother p hpl]
      rfl
  · by_cases hpl : p = level
    · rw [hpl] at hi ⊢
      rw [hself, (hphase _ _).2.1]
      exact hi
    · rwa [hother p hpl]
  · by_cases hpl : p = level
    · rw [hpl] at hp ⊢
      rw [hself, (hphase _ _).2.2.1] at hp
      exact hp
    · rwa [hother p hpl] at hp
  · rw [conWait_conInit hpc]
    by_cases hpl : p = level
    · rw [hpl, Function.update_self]
    · rw [hother p hpl] at hp
      rw [Function.update_of_ne hpl]
      exact hs.counted p num hp
  · by_cases hpl : p = level
    · rw [hpl] at hp ⊢
      rw [hself] at hp
      refine ⟨fun h => hp ((hphase _ _).2.2.2.1.mpr h), ?_⟩
      rw [seen, hself, reports_conInit hpc, Function.update_self]
      exact seen_replace_le (s.round level) (s.count level)
    · rw [hother p hpl] at hp
      refine ⟨hp, (seen_congr (hother p hpl) ?_).le⟩
      rw [reports_conInit hpc]
      exact Function.update_of_ne hpl ..

/-- The start of a round: nothing is left of the last one. -/
theorem BarrierInv.broadcast (hs : s.BarrierInv) {ch : ℕ} (hop : s.BarrierStep (.broadcast ch)) :
    (ThreadSys.broadcast ch s).BarrierInv := by
  unfold ThreadSys.broadcast
  dsimp only
  split_ifs with hidle
  swap
  · exact hs
  obtain ⟨hcount, hquiet⟩ := hop hidle
  set prio := getPrioByChannel ch
  set s' : ThreadSys := { s with round := Function.update s.round prio { phase := .notify 0 } }
  have hself : s'.round prio = { phase := .notify 0 } := Function.update_self ..
  have hround (p : ℕ) (hp : p ≠ prio) : s'.round p = s.round p := Function.update_of_ne hp ..
  have hnot (p i : ℕ) : s'.Notified p i ↔ p ≠ prio ∧ s.Notified p i := by
    by_cases hp : p = prio
    · subst hp
      simp [Notified, hself]
    · simp [Notified, hround p hp, hp]
  have hrep (p i : ℕ) (hp : p ≠ prio) : s'.Reported p i ↔ s.Reported p i := by
    rw [Reported, Reported, hround p hp]
  refine ⟨hs.created, fun i => ?_, fun p i hi => hs.notified_lt p i ((hnot p i).mp hi).2,
    fun p i hi => ?_, fun p num hnum => ?_, fun p num hphase => ?_, fun p hphase => ?_⟩
  · have hnone : (s'.round prio).notified i = none := by rw [hself]
    refine (hs.thread i).fresh hnone (fun p hp => ?_) (hquiet i)
    rw [hround p hp]
  · obtain ⟨hp, hold⟩ := (hnot p i).mp hi
    rw [hround p hp]
    exact hs.visited p i hold
  · by_cases hp : p = prio
    · subst hp
      rw [hself] at hnum
      obtain rfl : 0 = num := Option.some.inj hnum
      rw [Tally.count_eq_of_iff (q := fun _ => False) fun k _ => ?_]
      · simp
      · simp [hnot]
    · rw [hround p hp] at hnum
      rw [hs.num p num hnum]
      refine Tally.count_eq_of_iff fun k _ => ?_
      simp [hnot, hp]
  · by_cases hp : p = prio
    · rw [hp, hself] at hphase
      exact absurd hphase (by simp)
    · rw [hround p hp] at hphase
      exact hs.counted p num hphase
  · by_cases hp : p = prio
    · have hzero : s'.seen prio = 0 := by
        rw [seen, hself]
        exact hcount
      rw [hp, hzero]
      exact Nat.zero_le _
    · have hle : s'.seen p ≤ s.seen p := (seen_congr (hround p hp) rfl).le
      rw [hround p hp] at hphase
      refine (hle.trans (hs.reports p hphase)).trans_eq ?_
      exact Tally.count_eq_of_iff fun k _ => (hrep p k hp).symm

/-- A client that the round has come to. -/
theorem BarrierInv.visit {s' : ThreadSys} {prio id : ℕ} (hs : s.BarrierInv)
    (hthreads : s'.threads = s.threads) (hnext : s'.next = s.next)
    (hconWait : s'.conWait = s.conWait) (hcount : s'.count = s.count)
    (hround : s'.round = Function.update s.round prio
      { s.round prio with visited := Function.update (s.round prio).visited id true }) :
    s'.BarrierInv := by
  have hsame (p : ℕ) : (s'.round p).notified = (s.round p).notified ∧
      (s'.round p).phase = (s.round p).phase := by
    rw [hround]
    by_cases hp : p = prio
    · subst hp
      rw [Function.update_self]
      exact ⟨rfl, rfl⟩
    · rw [Function.update_of_ne hp]
      exact ⟨rfl, rfl⟩
  refine hs.of_rounds hthreads hnext (fun p => (hsame p).1) (fun p i hi => ?_)
    (fun p num hnum => ?_) (fun p num hp => ?_) fun p hp => ⟨(hsame p).2 ▸ hp, ?_⟩
  · rw [hround]
    by_cases hpp : p = prio
    · subst hpp
      rw [Function.update_self]
      by_cases hid : i = id
      · rw [hid]
        exact Function.update_self ..
      · exact (Function.update_of_ne hid ..).trans hi
    · rwa [Function.update_of_ne hpp]
  · rwa [(hsame p).2] at hnum
  · rw [hconWait]
    exact hs.counted p num ((hsame p).2 ▸ hp)
  · rw [seen, seen, (hsame p).2, hcount]

section Notify

/-- A round that has just notified a client, after `num` others. -/
def notifiedRound (r : Round) (id num wakes : ℕ) : Round where
  phase := .notify (num + 1)
  visited := Function.update r.visited id true
  notified := Function.update r.notified id (some wakes)

/-- The round of its priority has come to a client and notified it, after `num` others. -/
structure Notifies (s s' : ThreadSys) (id num : ℕ) : Prop where
  alive : (s.threads id).alive = true
  phase : (s.round (s.threads id).prio).phase = .notify num
  fresh : (s.round (s.threads id).prio).visited id = false
  threads : s'.threads = Function.update s.threads id { s.threads id with isWait := false }
  next : s'.next = s.next
  conWait : s'.conWait = s.conWait
  count : s'.count = s.count
  round : s'.round = Function.update s.round (s.threads id).prio
    (notifiedRound (s.round (s.threads id).prio) id num (s.threads id).wakes)

variable {s' : ThreadSys} {id num : ℕ}

namespace Notifies

theorem round_self (h : s.Notifies s' id num) : s'.round (s.threads id).prio =
    notifiedRound (s.round (s.threads id).prio) id num (s.threads id).wakes := by
  rw [h.round, Function.update_self]

theorem round_of_ne (h : s.Notifies s' id num) {p : ℕ} (hp : p ≠ (s.threads id).prio) :
    s'.round p = s.round p := by
  rw [h.round, Function.update_of_ne hp]

/-- The round remembers when it has notified the client. -/
theorem notified_self (h : s.Notifies s' id num) :
    (s'.round (s.threads id).prio).notified id = some (s.threads id).wakes := by
  rw [h.round_self]
  exact Function.update_self ..

theorem notified_of_ne (h : s.Notifies s' id num) (p : ℕ) {i : ℕ} (hi : i ≠ id) :
    (s'.round p).notified i = (s.round p).notified i := by
  by_cases hp : p = (s.threads id).prio
  · rw [hp, h.round_self]
    exact Function.update_of_ne hi ..
  · rw [h.round_of_ne hp]

theorem notified_iff (h : s.Notifies s' id num) (p : ℕ) {i : ℕ} (hi : i ≠ id) :
    s.Notified p i ↔ s'.Notified p i := by
  rw [Notified, Notified, h.notified_of_ne p hi]

theorem visited (h : s.Notifies s' id num) {p i : ℕ}
    (hi : p = (s.threads id).prio ∧ i = id ∨ (s.round p).visited i = true) :
    (s'.round p).visited i = true := by
  by_cases hp : p = (s.threads id).prio
  · rw [hp, h.round_self]
    rw [hp] at hi
    by_cases hid : i = id
    · rw [hid]
      exact Function.update_self ..
    · exact (Function.update_of_ne hid ..).trans (hi.resolve_left fun hnew => hid hnew.2)
  · rw [h.round_of_ne hp]
    exact hi.resolve_left fun hnew => hp hnew.1

/-- The client had not been notified in the round. -/
theorem not_notified (h : s.Notifies s' id num) (hs : s.BarrierInv) :
    ¬ s.Notified (s.threads id).prio id := fun hnot =>
  absurd (h.fresh.symm.trans (hs.visited _ id hnot)) Bool.false_ne_true

theorem notified_eq_none (h : s.Notifies s' id num) (hs : s.BarrierInv) :
    (s.round (s.threads id).prio).notified id = none := by
  simpa [Notified] using h.not_notified hs

/-- The round has notified one client more. -/
theorem num_eq (h : s.Notifies s' id num) (hs : s.BarrierInv) {p n : ℕ}
    (hp : (s'.round p).phase.num = some n) : n = Nat.count (s'.Notified p) s.next := by
  by_cases hprio : p = (s.threads id).prio
  · rw [hprio] at hp ⊢
    rw [h.round_self] at hp
    obtain rfl : num + 1 = n := Option.some.inj hp
    have hnow : s'.Notified (s.threads id).prio id := by
      rw [Notified, h.notified_self]
      rfl
    have hbefore : num = Nat.count (s.Notified (s.threads id).prio) s.next :=
      hs.num _ num (by rw [h.phase]; rfl)
    rw [Tally.count_of_gain (hs.created id h.alive) (h.not_notified hs) hnow fun _ =>
      h.notified_iff _, ← hbefore]
  · rw [h.round_of_ne hprio] at hp
    rw [hs.num p n hp]
    refine Tally.count_eq_of_iff fun k _ => ?_
    rw [Notified, Notified, h.round_of_ne hprio]

/-- The thread that has just been notified has not reported since. -/
theorem reported_iff (h : s.Notifies s' id num) (hs : s.BarrierInv) (p k : ℕ) :
    s.Reported p k ↔ s'.Reported p k := by
  have hovers : (s'.threads k).overs = (s.threads k).overs := by
    rw [h.threads]
    by_cases hk : k = id
    · rw [hk, Function.update_self]
    · rw [Function.update_of_ne hk]
  rw [Reported, Reported, hovers]
  by_cases hk : k = id
  · by_cases hp : p = (s.threads id).prio
    · have hnone := h.notified_eq_none hs
      have hrest : (s.threads id).wakes = (s.threads id).overs := by
        refine (hs.thread id).rest h.alive fun hpend => ?_
        obtain ⟨w, hw, -⟩ := (hs.thread id).pending h.alive hpend
        exact absurd (hnone.symm.trans hw) (by simp)
      rw [hp, hk, h.notified_self, hnone]
      simp [hrest]
    · rw [h.round_of_ne hp]
  · rw [h.notified_of_ne p hk]

/-- Every thread stands in the rounds as it should. -/
theorem inRounds (h : s.Notifies s' id num) (hs : s.BarrierInv) (i : ℕ) :
    (s'.threads i).InRounds fun prio => (s'.round prio).notified i := by
  rw [h.threads]
  by_cases hi : i = id
  · subst hi
    rw [Function.update_self]
    exact (hs.thread i).notify h.alive (h.notified_eq_none hs) h.notified_self fun p hp => by
      rw [h.round_of_ne hp]
  · rw [Function.update_of_ne hi]
    simp only [h.notified_of_ne _ hi]
    exact hs.thread i

end Notifies

/-- A client that the round has notified. -/
theorem BarrierInv.notify (hs : s.BarrierInv) (h : s.Notifies s' id num) : s'.BarrierInv := by
  have hid := hs.created id h.alive
  refine ⟨fun i hi => ?_, h.inRounds hs, fun p i hi => ?_, fun p i hi => ?_, fun p n hp => ?_,
    fun p n hp => ?_, fun p hp => ?_⟩
  · rw [h.next]
    by_cases hi' : i = id
    · exact hi' ▸ hid
    · rw [h.threads, Function.update_of_ne hi'] at hi
      exact hs.created i hi
  · rw [h.next]
    by_cases hi' : i = id
    · exact hi' ▸ hid
    · exact hs.notified_lt p i ((h.notified_iff p hi').mpr hi)
  · refine h.visited (or_iff_not_imp_left.mpr fun hnew => hs.visited p i ?_)
    by_cases hi' : i = id
    · rwa [Notified, h.round_of_ne fun hp => hnew ⟨hp, hi'⟩] at hi
    · exact (h.notified_iff p hi').mpr hi
  · rw [h.next]
    exact h.num_eq hs hp
  · have hprio : p ≠ (s.threads id).prio := by
      rintro rfl
      rw [h.round_self] at hp
      exact absurd hp (by simp [notifiedRound])
    rw [h.round_of_ne hprio] at hp
    rw [h.conWait]
    exact hs.counted p n hp
  · obtain ⟨hbefore, hseen⟩ : (s.round p).phase ≠ .idle ∧ s'.seen p = s.seen p := by
      by_cases hprio : p = (s.threads id).prio
      · rw [hprio, seen, seen, h.phase, h.round_self, h.count]
        exact ⟨by simp, rfl⟩
      · rw [h.round_of_ne hprio] at hp
        exact ⟨hp, seen_congr (h.round_of_ne hprio) (congrFun h.count p)⟩
    rw [h.next, hseen]
    refine (hs.reports p hbefore).trans_eq ?_
    exact Tally.count_eq_of_iff fun k _ => h.reported_iff hs p k

end Notify

theorem BarrierInv.conNofity (hs : s.BarrierInv) (ch id : ℕ) : (s.conNofity ch id).BarrierInv := by
  unfold ThreadSys.conNofity
  dsimp only
  split
  case h_1 num hphase =>
    split_ifs with hvisit hprio
    · obtain ⟨halive, hfresh⟩ := hvisit
      rw [← hprio.1] at hphase hfresh ⊢
      exact hs.notify ⟨halive, hphase, hfresh, rfl, rfl, rfl, rfl, rfl⟩
    · exact hs.visit rfl rfl rfl rfl rfl
    · exact hs
  case h_2 => exact hs

/-! ### Runs -/

theorem BarrierInv.step (hs : s.BarrierInv) {op : ThreadOp} (hop : s.BarrierStep op) :
    (s.step op).BarrierInv := by
  cases op with
  | connect created =>
    cases created with
    | true => exact hs.netThreadCreateContext
    | false => exact hs
  | init id =>
    dsimp only [ThreadSys.step, threadInit]
    split_ifs with hid hinited
    · exact hs.of_overs rfl rfl rfl rfl rfl (fun _ => hs.created id hid.1)
        ((hs.thread id).init (by rw [hid.2]; trivial) _ trivial) rfl
    · exact hs.of_overs rfl rfl rfl rfl rfl (fun _ => hs.created id hid.1)
        ((hs.thread id).init (by rw [hid.2]; trivial) _ trivial) rfl
    · exact hs
  | conInit id => exact hs.netThreadConInit id
  | clear id =>
    dsimp only [ThreadSys.step, clearSub]
    split_ifs with hpc
    · exact hs.of_overs rfl rfl rfl rfl rfl (hs.created id)
        ((hs.thread id).init (by rw [hpc]; trivial) _ trivial) rfl
    · exact hs
  | register id type =>
    dsimp only [ThreadSys.step]
    by_cases halive : (s.threads id).alive = true
    · exact hs.of_overs (threads_register halive) (round_register id type) (next_register id type)
        (conWait_register id type) (reports_register id type) (fun _ => hs.created id halive)
        ((hs.thread id).register (hop halive)) rfl
    · rw [registerThread, if_neg halive]
      exact hs
  | table id hasTable =>
    have htable : (s.setTable id hasTable).BarrierInv :=
      hs.of_overs rfl rfl rfl rfl rfl (hs.created id) ((hs.thread id).table hasTable) rfl
    exact htable
  | disconnect id =>
    dsimp only [ThreadSys.step]
    by_cases hid : (s.threads id).alive = true ∧
        ((s.threads id).pc = .start ∨ (s.threads id).pc = .wait)
    · exact hs.of_overs (threads_exit hid) (round_exit id) (next_exit id) (conWait_exit id)
        (reports_exit id) (fun h => Bool.noConfusion h) ((hs.thread id).exit hid.2) rfl
    · rw [netThreadExit, if_neg hid]
      exact hs
  | broadcast ch => exact hs.broadcast hop
  | nofity ch id => exact hs.conNofity ch id
  | countGet ch => exact hs.countGet hop
  | conWait ch => exact hs.conWaitTimeout ch
  | waitOver ch => exact hs.waitOver ch
  | waitTimeout ch => exact hs.waitTimeout ch
  | wake id =>
    dsimp only [ThreadSys.step, threadWake]
    split_ifs with hid
    · exact hs.of_overs rfl rfl rfl rfl rfl (fun _ => hs.created id hid.1)
        ((hs.thread id).wake hid.1 hid.2.2) rfl
    · exact hs
  | dispatched id =>
    dsimp only [ThreadSys.step, threadDispatched]
    split
    case h_1 ch hpc =>
      exact hs.of_overs rfl rfl rfl rfl rfl (hs.created id)
        ((hs.thread id).dispatched hpc) rfl
    case h_2 => exact hs
  | conOver id =>
    dsimp only [ThreadSys.step]
    by_cases hpc : (s.threads id).pc = .over
    · exact hs.conOver hpc
    · rw [threadConOver, if_neg hpc]
      exact hs

end Steps

theorem barrierInv_start : BarrierInv {} := by
  have hrest : ¬ ({} : NetThread).Pending := by simp [NetThread.Pending]
  refine ⟨fun _ h => Bool.noConfusion h, fun _ => ⟨fun _ => trivial, fun h => Bool.noConfusion h,
    fun h => Bool.noConfusion h, fun _ _ h => Bool.noConfusion h, fun _ _ h => absurd h (by simp)⟩,
    fun _ _ h => Bool.noConfusion h, fun _ _ h => Bool.noConfusion h,
    fun _ _ h => absurd h (by simp [RoundPhase.num]), fun _ _ h => absurd h (by simp),
    fun _ h => absurd rfl h⟩

/-- The steps of a run of the system from the start of the process. -/
def BarrierRun (ops : List ThreadOp) (s : ThreadSys) : Prop :=
  LabelRun (fun op s => s.step op) (fun _ => True) BarrierStep {} ops s

/-- **A broadcast is a barrier.** In a run in which every round starts with no report left and none
to come, no thread that has a report to make changes its priority, and the number of threads is not
below the number of the notified clients, every thread that a broadcast has notified has walked
through the vectors when the broadcast returns without a timeout. -/
theorem allServed_of_returns {ops : List ThreadOp} {s : ThreadSys} {prio : ℕ} {op : ThreadOp}
    (hrun : BarrierRun ops s) (hop : s.BarrierStep op) (hret : s.Returns prio op) :
    s.AllServed prio := by
  have hinv : s.BarrierInv :=
    LabelRun.invariant (fun _ s => s.BarrierInv) barrierInv_start
      (fun _ _ _ _ _ hok hs => hs.step hok) hrun
  exact hinv.allServed hop hret

/-- Two clients connect, subscribe and register, with priority zero and one. -/
def twoClients : List ThreadOp :=
  [.connect true, .connect true, .init 0, .conInit 0, .conInit 0, .clear 0, .init 1, .clear 1,
    .register 0 1, .register 1 2, .table 0 true, .table 1 true]

/-- The broadcasts of both channels, and the walks of both threads. -/
def twoRounds : List ThreadOp :=
  [.broadcast 1, .broadcast 0, .nofity 1 0, .nofity 0 0, .nofity 1 1, .nofity 0 1, .countGet 1,
    .conWait 1, .countGet 0, .conWait 0, .wake 0, .wake 1, .dispatched 1, .dispatched 0, .conOver 0,
    .conOver 1]

/-- No thread is notified before the broadcasts. -/
theorem not_pending_twoClients (i : ℕ) : ¬ ((run twoClients).threads i).Pending := by
  have hrest (t : NetThread) (hwait : t.isWait = true) (hpc : t.pc.Outside) : ¬ t.Pending := by
    rintro (h | ⟨ch, h⟩ | h)
    · exact absurd (hwait.symm.trans h) (by simp)
    · rw [h] at hpc
      exact hpc
    · rw [h] at hpc
      exact hpc
  match i with
  | 0 => exact hrest _ rfl trivial
  | 1 => exact hrest _ rfl trivial
  | i + 2 => exact hrest _ rfl trivial

theorem BarrierRun.next {ops : List ThreadOp} (hrun : BarrierRun ops (run ops)) (op : ThreadOp)
    (hop : (run ops).BarrierStep op) : BarrierRun (ops ++ [op]) (run (ops ++ [op])) := by
  have hstep : run (ops ++ [op]) = (run ops).step op := by
    rw [run, List.foldl_append]
    rfl
  rw [hstep]
  exact hrun.snoc trivial hop

/-- Steps that the condition says nothing about. -/
theorem BarrierRun.free {ops : List ThreadOp} (hrun : BarrierRun ops (run ops))
    (rest : List ThreadOp) (hfree : ∀ op ∈ rest, ∀ s, BarrierStep s op) :
    BarrierRun (ops ++ rest) (run (ops ++ rest)) := by
  induction rest generalizing ops with
  | nil => rwa [List.append_nil]
  | cons op rest ih =>
    have hnext := hrun.next op (hfree op List.mem_cons_self _)
    have hall := ih hnext fun op hop => hfree op (List.mem_cons_of_mem _ hop)
    rwa [List.append_assoc, List.singleton_append] at hall

theorem barrierRun_twoClients : BarrierRun twoClients (run twoClients) := by
  have hfresh : ¬ ({ alive := true, pc := .wait } : NetThread).Pending := by
    simp [NetThread.Pending]
  have hstart : BarrierRun [] (run []) := .nil
  have hconnected := hstart.free
    [.connect true, .connect true, .init 0, .conInit 0, .conInit 0, .clear 0, .init 1, .clear 1]
    (by simp [BarrierStep])
  have hregistered := (hconnected.next (.register 0 1) fun _ => .inl hfresh).next (.register 1 2)
    fun _ => .inl hfresh
  exact hregistered.free [.table 0 true, .table 1 true] (by simp [BarrierStep])

/-- Both rounds start with nothing left, and count both threads. -/
theorem barrierRun_twoRounds :
    BarrierRun (twoClients ++ twoRounds) (run (twoClients ++ twoRounds)) := by
  have hbroadcast (ch : ℕ) (s : ThreadSys) (hcount : s.count (getPrioByChannel ch) = 0)
      (hthreads : s.threads = (run twoClients).threads) : s.BarrierStep (.broadcast ch) := by
    refine fun _ => ⟨hcount, fun i _ _ => ?_⟩
    rw [hthreads]
    exact not_pending_twoClients i
  have hnum : ∀ num, RoundPhase.notify 1 = .notify num → 0 < num → true = true ∧ num ≤ 1 := by
    simp
  have hstarted := (barrierRun_twoClients.next (.broadcast 1) (hbroadcast 1 _ rfl rfl)).next
    (.broadcast 0) (hbroadcast 0 _ rfl rfl)
  have hnotified := hstarted.free [.nofity 1 0, .nofity 0 0, .nofity 1 1, .nofity 0 1]
    (by simp [BarrierStep])
  have hfirst := (hnotified.next (.countGet 1) hnum).free [.conWait 1] (by simp [BarrierStep])
  have hsecond := (hfirst.next (.countGet 0) hnum).free [.conWait 0, .wake 0, .wake 1,
    .dispatched 1, .dispatched 0, .conOver 0, .conOver 1] (by simp [BarrierStep])
  exact hsecond

theorem allServed_two_clients :
    AllServed (run (twoClients ++ twoRounds)) 0 ∧ AllServed (run (twoClients ++ twoRounds)) 1 := by
  have hfirst : (run (twoClients ++ twoRounds)).Returns 0 (.waitOver 1) :=
    ⟨rfl, .inl ⟨1, rfl, by decide⟩⟩
  have hsecond : (run (twoClients ++ twoRounds)).Returns 1 (.waitOver 0) :=
    ⟨rfl, .inl ⟨1, rfl, by decide⟩⟩
  have hop (ch : ℕ) : (run (twoClients ++ twoRounds)).BarrierStep (.waitOver ch) := trivial
  exact ⟨allServed_of_returns barrierRun_twoRounds (hop 1) hfirst,
    allServed_of_returns barrierRun_twoRounds (hop 0) hsecond⟩

/-- A client with a table that has not registered: the broadcast returns before its thread walks. -/
theorem not_allServed_of_returns_unregistered :
    (run [.connect true, .init 0, .conInit 0, .conInit 0, .clear 0, .table 0 true, .broadcast 1,
      .nofity 1 0]).Returns 0 (.countGet 1) ∧
    ¬ (run [.connect true, .init 0, .conInit 0, .conInit 0, .clear 0, .table 0 true, .broadcast 1,
      .nofity 1 0]).AllServed 0 := by
  refine ⟨⟨rfl, 1, rfl, by decide⟩, fun h => ?_⟩
  obtain ⟨k, -, hk⟩ := h 0 0 rfl
  exact List.not_mem_nil hk

end ThreadSys

end M57Card.Net
