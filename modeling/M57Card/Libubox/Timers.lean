import Mathlib.Data.List.Lemmas
import Mathlib.Logic.Function.Basic
import Mathlib.Algebra.Order.Ring.Int
import Mathlib.Algebra.Order.Group.Abs
import M57Card.Lib.Simulation

/-!
# Timers

The event loop (`uloop.c`) keeps the pending timers in a list. A timer is put in front of the first
one that is later; a pass over the list takes its head as long as it is due, and calls it. The
callbacks, and the other code of the program, set and cancel timers at any time.

Times are compared by `tv_diff` in whole milliseconds, where the seconds and the microseconds are
rounded separately. So the list is not sorted by time, and two times can be equal for the list
without being equal to a third one that is equal to both.

## Main definitions

* `tvDiff`, `Timers`, `Timers.cancel`, `Timers.add`, `Timers.set`, `Timers.processIter`,
  `Timers.nextTimeout`, `Timers.remaining` : the code.
* `Deadlines`, `Deadlines.Step` : the timers for their users.

## Main results

* `accepts_of_timerRun` : for its users, each timer ends once, when its time has come.
* `fired_le_of_pass` : a pass over the timers ends.
-/

namespace M57Card.Libubox

open Simulation

/-! ### The model -/

/-- `struct timeval`. -/
structure Timeval where
  sec : ℤ
  usec : ℤ

/-- `tv_diff`, an `int`. -/
def tvDiff (t1 t2 : Timeval) : ℤ :=
  ((t1.sec - t2.sec) * 1000 + (t1.usec - t2.usec).tdiv 1000).bmod (2 ^ 32)

/-- `struct uloop_timeout`, without the callback. -/
structure UloopTimeout where
  pending : Bool := false
  time : Timeval := ⟨0, 0⟩

/-- The list `timeouts`, and the timers. -/
structure Timers where
  timeouts : List ℕ := []
  timer : ℕ → UloopTimeout := fun _ => {}

namespace Timers

variable (s : Timers)

/-- `uloop_timeout_cancel`. -/
def cancel (t : ℕ) : Timers × ℤ :=
  if (s.timer t).pending then
    ({ timeouts := s.timeouts.erase t
       timer := Function.update s.timer t { s.timer t with pending := false } }, 0)
  else (s, -1)

/-- The timers in front of which `uloop_timeout_add` looks on. -/
def notLater (t tmp : ℕ) : Bool := tvDiff (s.timer tmp).time (s.timer t).time ≤ 0

/-- `uloop_timeout_add`. -/
def add (t : ℕ) : Timers × ℤ :=
  if (s.timer t).pending then (s, -1)
  else
    ({ timeouts := s.timeouts.takeWhile (s.notLater t) ++ t :: s.timeouts.dropWhile (s.notLater t)
       timer := Function.update s.timer t { s.timer t with pending := true } }, 0)

/-- The time that `uloop_timeout_set` computes. -/
def addMsecs (now : Timeval) (msecs : ℤ) : Timeval :=
  let sec := now.sec + msecs.tdiv 1000
  let usec := now.usec + msecs.tmod 1000 * 1000
  if 1000000 < usec then ⟨sec + 1, usec - 1000000⟩ else ⟨sec, usec⟩

/-- `uloop_timeout_set`. -/
def set (t : ℕ) (msecs : ℤ) (now : Timeval) : Timers × ℤ :=
  let s := if (s.timer t).pending then (s.cancel t).1 else s
  add { s with
    timer := Function.update s.timer t { s.timer t with time := addMsecs now msecs } } t

/-- `uloop_timeout_remaining`. -/
def remaining (t : ℕ) (now : Timeval) : ℤ :=
  if (s.timer t).pending then tvDiff (s.timer t).time now else -1

/-- `uloop_get_next_timeout`. -/
def nextTimeout (tv : Timeval) : ℤ :=
  match s.timeouts with
  | [] => -1
  | t :: _ => if tvDiff (s.timer t).time tv < 0 then 0 else tvDiff (s.timer t).time tv

/-- The loop of `uloop_process_timeouts` up to a callback: the timer that is called, if any. -/
def processIter (tv : Timeval) : Timers × Option ℕ :=
  match s.timeouts with
  | [] => (s, none)
  | t :: _ => if 0 < tvDiff (s.timer t).time tv then (s, none) else ((s.cancel t).1, some t)

end Timers

/-! ### The timers for their users -/

/-- When each pending timer ends, in microseconds. -/
abbrev Deadlines := ℕ → Option ℤ

/-- What a user of the timers sees. -/
inductive TimerLabel where
  | set (t : ℕ) (msecs now ret : ℤ)
  | cancel (t : ℕ) (ret : ℤ)
  | remaining (t : ℕ) (now ret : ℤ)
  /-- the callback of a timer is called -/
  | fired (t : ℕ) (now : ℤ)
  /-- a pass is over -/
  | ended (now : ℤ)
  /-- the loop may sleep so many milliseconds, -1 for ever -/
  | sleep (now ret : ℤ)

/-- The steps of the timers: a timer that is called is due and comes before the others, up to one
millisecond, and none is left due by a pass. -/
inductive Deadlines.Step : Deadlines → TimerLabel → Deadlines → Prop
  | set {a : Deadlines} {t : ℕ} {msecs now : ℤ} :
      Step a (.set t msecs now 0) (Function.update a t (some (now + msecs * 1000)))
  | cancel {a : Deadlines} {t : ℕ} :
      Step a (.cancel t (if (a t).isSome then 0 else -1)) (Function.update a t none)
  | remaining {a : Deadlines} {t : ℕ} {now ret : ℤ} (hnone : a t = none → ret = -1)
      (hsome : ∀ d ∈ a t, |ret * 1000 - (d - now)| < 1000) : Step a (.remaining t now ret) a
  | fired {a : Deadlines} {t : ℕ} {now d : ℤ} (ht : a t = some d) (hdue : d < now + 1000)
      (hfirst : ∀ t', ∀ d' ∈ a t', d < d' + 1000) :
      Step a (.fired t now) (Function.update a t none)
  | ended {a : Deadlines} {now : ℤ} (hlater : ∀ t, ∀ d ∈ a t, now < d) : Step a (.ended now) a
  | idle {a : Deadlines} {now : ℤ} (hnone : ∀ t, a t = none) : Step a (.sleep now (-1)) a
  | sleep {a : Deadlines} {now ret : ℤ} {t : ℕ} {d : ℤ} (hret : 0 ≤ ret) (ht : a t = some d)
      (hlong : ret = 0 ∨ d - now - 1000 < ret * 1000)
      (hshort : ret = 0 ∨ ∀ t', ∀ d' ∈ a t', ret * 1000 < d' - now + 2000) :
      Step a (.sleep now ret) a

/-- An operation of the loop or of the code that it calls, with the clock that it reads. -/
inductive TimerOp where
  | set (t : ℕ) (msecs : ℤ) (now : Timeval)
  | cancel (t : ℕ)
  | remaining (t : ℕ) (now : Timeval)
  /-- an iteration of a pass that has begun at `tv` -/
  | iter (tv : Timeval)
  | sleep (now : Timeval)

/-- A time in microseconds. -/
def Timeval.micros (tv : Timeval) : ℤ := tv.sec * 1000000 + tv.usec

/-- An operation, and what its user sees. -/
def Timers.step (s : Timers) : TimerOp → Timers × TimerLabel
  | .set t msecs now => ((s.set t msecs now).1, .set t msecs now.micros (s.set t msecs now).2)
  | .cancel t => ((s.cancel t).1, .cancel t (s.cancel t).2)
  | .remaining t now => (s, .remaining t now.micros (s.remaining t now))
  | .iter tv =>
    ((s.processIter tv).1, match (s.processIter tv).2 with
      | none => .ended tv.micros
      | some t => .fired t tv.micros)
  | .sleep now => (s, .sleep now.micros (s.nextTimeout now))

/-- A time as the clock gives it. -/
def Timeval.IsClock (tv : Timeval) : Prop := 0 ≤ tv.usec ∧ tv.usec < 1000000

/-- No pending timer is more than 2 ^ 31 − 2 milliseconds away from `x`. -/
def Timers.Near (s : Timers) (x : ℤ) : Prop :=
  ∀ t ∈ s.timeouts, |(s.timer t).time.micros - x| ≤ (2 ^ 31 - 2) * 1000

/-- An operation in which no `int` overflows. -/
def Timers.Good (s : Timers) : TimerOp → Prop
  | .set _ msecs now => 0 ≤ msecs ∧ now.IsClock ∧ s.Near (now.micros + msecs * 1000)
  | .cancel _ => True
  | .remaining _ now | .iter now | .sleep now => now.IsClock ∧ s.Near now.micros

instance (tv : Timeval) : Decidable tv.IsClock := inferInstanceAs (Decidable (_ ∧ _))

instance (s : Timers) (x : ℤ) : Decidable (s.Near x) :=
  inferInstanceAs (Decidable (∀ t ∈ s.timeouts, _))

instance (s : Timers) : DecidablePred s.Good
  | .set _ _ _ => inferInstanceAs (Decidable (_ ∧ _ ∧ _))
  | .cancel _ => .isTrue trivial
  | .remaining _ _ | .iter _ | .sleep _ => inferInstanceAs (Decidable (_ ∧ _))

/-! ### Times -/

/-- A time that is in the list. -/
def Timeval.Ok (tv : Timeval) : Prop := 0 ≤ tv.usec ∧ tv.usec ≤ 1000000

theorem Timeval.IsClock.ok {tv : Timeval} (h : tv.IsClock) : tv.Ok := ⟨h.1, h.2.le⟩

/-- What `tv_diff` takes as later. -/
def Later (x y : Timeval) : Prop :=
  x.sec = y.sec ∧ y.usec + 1000 ≤ x.usec ∨ y.sec < x.sec ∧ y.micros < x.micros

instance (x y : Timeval) : Decidable (Later x y) := inferInstanceAs (Decidable (_ ∨ _))

theorem tdiv_bounds (n : ℤ) :
    (0 ≤ n → n.tdiv 1000 * 1000 ≤ n ∧ n < n.tdiv 1000 * 1000 + 1000) ∧
      (n ≤ 0 → n ≤ n.tdiv 1000 * 1000 ∧ n.tdiv 1000 * 1000 < n + 1000) := by
  refine ⟨fun hn => ?_, fun hn => ?_⟩
  · rw [Int.tdiv_eq_ediv_of_nonneg hn]
    omega
  · obtain ⟨m, rfl⟩ : ∃ m, n = -m := ⟨-n, (neg_neg n).symm⟩
    rw [Int.neg_tdiv, Int.tdiv_eq_ediv_of_nonneg (by omega)]
    omega

section

variable {x y z : Timeval}

/-- Near times are not cut to an `int`. -/
theorem tvDiff_eq (hnear : |x.micros - y.micros| ≤ (2 ^ 31 - 2) * 1000) :
    tvDiff x y = (x.sec - y.sec) * 1000 + (x.usec - y.usec).tdiv 1000 := by
  have hdiv := tdiv_bounds (x.usec - y.usec)
  rw [abs_le, Timeval.micros, Timeval.micros] at hnear
  rw [tvDiff, Int.bmod_eq_of_le]
  · omega
  · omega

/-- `tv_diff` is less than a millisecond off. -/
theorem abs_tvDiff_sub_lt (hnear : |x.micros - y.micros| ≤ (2 ^ 31 - 2) * 1000) :
    |tvDiff x y * 1000 - (x.micros - y.micros)| < 1000 := by
  have hdiv := tdiv_bounds (x.usec - y.usec)
  rw [tvDiff_eq hnear, abs_lt, Timeval.micros, Timeval.micros]
  omega

theorem tvDiff_pos_iff (hx : x.Ok) (hy : y.Ok)
    (hnear : |x.micros - y.micros| ≤ (2 ^ 31 - 2) * 1000) : 0 < tvDiff x y ↔ Later x y := by
  have hdiv := tdiv_bounds (x.usec - y.usec)
  obtain ⟨hx0, hx1⟩ := hx
  obtain ⟨hy0, hy1⟩ := hy
  rw [tvDiff_eq hnear, Later, Timeval.micros, Timeval.micros]
  omega

theorem not_later_self (x : Timeval) : ¬ Later x x := by
  rw [Later]
  omega

theorem Later.trans (hy : y.Ok) (hz : z.Ok) (hxy : Later x y) (hyz : Later y z) : Later x z := by
  obtain ⟨hy0, hy1⟩ := hy
  obtain ⟨hz0, hz1⟩ := hz
  rw [Later, Timeval.micros, Timeval.micros] at *
  omega

/-- What is not later is less than a millisecond later. -/
theorem lt_of_not_later (hx : x.Ok) (hy : y.Ok) (h : ¬ Later x y) : x.micros < y.micros + 1000 := by
  obtain ⟨hx0, hx1⟩ := hx
  obtain ⟨hy0, hy1⟩ := hy
  rw [Later, Timeval.micros, Timeval.micros] at *
  omega

/-- A timer behind one that is later than the clock has not come either. -/
theorem lt_of_later (hx : x.Ok) (hz : z.Ok) (hy : y.IsClock) (hxy : Later x y)
    (hxz : ¬ Later x z) : y.micros < z.micros := by
  obtain ⟨hx0, hx1⟩ := hx
  obtain ⟨hy0, hy1⟩ := hy
  obtain ⟨hz0, hz1⟩ := hz
  rw [Later, Timeval.micros, Timeval.micros] at *
  omega

theorem later_of_le (hx : x.Ok) (hy : y.IsClock) (h : y.micros + 1000 ≤ x.micros) :
    Later x y := by
  obtain ⟨hx0, hx1⟩ := hx
  obtain ⟨hy0, hy1⟩ := hy
  rw [Later, Timeval.micros, Timeval.micros] at *
  omega

theorem addMsecs_spec {now : Timeval} (hnow : now.IsClock) {msecs : ℤ} (hmsecs : 0 ≤ msecs) :
    (Timers.addMsecs now msecs).Ok ∧
      (Timers.addMsecs now msecs).micros = now.micros + msecs * 1000 := by
  obtain ⟨hnow0, hnow1⟩ := hnow
  have hmod := Int.tdiv_mul_add_tmod msecs 1000
  have hdiv := (tdiv_bounds msecs).1 hmsecs
  rw [Timers.addMsecs]
  split_ifs
  all_goals
    rw [Timeval.Ok, Timeval.micros, Timeval.micros]
    dsimp only
    omega

end

/-! ### The list -/

/-- An element is put into a list in front of the first one behind which it may not stand. -/
theorem pairwise_insert {α : Type*} {r : α → α → Prop} {p : α → Bool} {x : α} {l : List α}
    (hl : l.Pairwise fun a b => ¬ r a b) (hp : ∀ a ∈ l, p a = true ↔ ¬ r a x)
    (hirr : ∀ a, ¬ r a a) (htrans : ∀ a ∈ l, ∀ b ∈ l, r a x → r x b → r a b) :
    (l.takeWhile p ++ x :: l.dropWhile p).Pairwise fun a b => ¬ r a b := by
  induction l with
  | nil => exact List.pairwise_singleton _ _
  | cons a l ih =>
    rw [List.pairwise_cons] at hl
    rw [List.forall_mem_cons] at hp
    by_cases hpa : p a = true
    · have hmem : ∀ b ∈ l.takeWhile p ++ x :: l.dropWhile p, b = x ∨ b ∈ l := by
        intro b hb
        rw [List.mem_append, List.mem_cons] at hb
        rcases hb with hb | rfl | hb
        · exact Or.inr ((List.takeWhile_sublist p).subset hb)
        · exact Or.inl rfl
        · exact Or.inr ((List.dropWhile_sublist p).subset hb)
      rw [List.takeWhile_cons_of_pos hpa, List.dropWhile_cons_of_pos hpa, List.cons_append,
        List.pairwise_cons]
      refine ⟨fun b hb => ?_, ih hl.2 hp.2 fun b hb c hc =>
        htrans b (List.mem_cons_of_mem _ hb) c (List.mem_cons_of_mem _ hc)⟩
      rcases hmem b hb with rfl | hb
      · exact hp.1.mp hpa
      · exact hl.1 b hb
    · have hax : r a x := not_not.mp (mt hp.1.mpr hpa)
      rw [List.takeWhile_cons_of_neg hpa, List.dropWhile_cons_of_neg hpa, List.nil_append,
        List.pairwise_cons, List.pairwise_cons]
      refine ⟨fun b hb hxb => ?_, hl⟩
      have hab : r a b := htrans a List.mem_cons_self b hb hax hxb
      rcases List.mem_cons.mp hb with rfl | hb
      · exact hirr _ hab
      · exact hl.1 b hb hab

theorem insert_perm {α : Type*} (p : α → Bool) (x : α) (l : List α) :
    (l.takeWhile p ++ x :: l.dropWhile p).Perm (x :: l) := by
  have h : (l.takeWhile p ++ x :: l.dropWhile p).Perm (x :: (l.takeWhile p ++ l.dropWhile p)) :=
    List.perm_middle
  rwa [List.takeWhile_append_dropWhile] at h

/-- The list holds the pending timers, and no timer stands behind one that is later. -/
structure Timers.Ok (s : Timers) : Prop where
  nodup : s.timeouts.Nodup
  mem : ∀ t, t ∈ s.timeouts ↔ (s.timer t).pending = true
  time : ∀ t ∈ s.timeouts, (s.timer t).time.Ok
  sorted : s.timeouts.Pairwise fun t t' => ¬ Later (s.timer t).time (s.timer t').time

/-- The timers as their users see them. -/
def Timers.deadlines (s : Timers) : Deadlines := fun t =>
  if (s.timer t).pending then some (s.timer t).time.micros else none

namespace Timers

variable {s : Timers}

theorem ok_start : Timers.Ok {} :=
  ⟨List.nodup_nil, fun _ => iff_of_false List.not_mem_nil Bool.false_ne_true,
    List.forall_mem_nil _, .nil⟩

theorem mem_deadlines {t : ℕ} {d : ℤ} :
    d ∈ s.deadlines t ↔ (s.timer t).pending = true ∧ d = (s.timer t).time.micros := by
  rw [deadlines]
  split_ifs with h
  · simp [h, eq_comm]
  · simp [h]

theorem deadlines_eq_none {t : ℕ} : s.deadlines t = none ↔ (s.timer t).pending = false := by
  rw [deadlines]
  split_ifs with h
  · simp [h]
  · simp [h]

/-- The times are not changed by `uloop_timeout_cancel`. -/
theorem time_cancel (s : Timers) (t t' : ℕ) :
    ((s.cancel t).1.timer t').time = (s.timer t').time := by
  rw [cancel]
  split_ifs
  · dsimp only
    rw [Function.update_apply]
    split_ifs with heq
    · rw [heq]
    · rfl
  · rfl

theorem pending_cancel (s : Timers) (t t' : ℕ) :
    ((s.cancel t).1.timer t').pending = if t' = t then false else (s.timer t').pending := by
  rw [cancel]
  split_ifs with hp heq heq
  · rw [heq]
    dsimp only
    rw [Function.update_self]
  · dsimp only
    rw [Function.update_of_ne heq]
  · rw [heq]
    exact Bool.eq_false_of_not_eq_true hp
  · rfl

theorem Ok.timeouts_cancel (h : s.Ok) (t : ℕ) : (s.cancel t).1.timeouts = s.timeouts.erase t := by
  rw [cancel]
  split_ifs with hp
  · rfl
  · exact (List.erase_of_not_mem (mt (h.mem t).mp hp)).symm

theorem Ok.cancel (h : s.Ok) (t : ℕ) : (s.cancel t).1.Ok := by
  have hsub : (s.cancel t).1.timeouts.Sublist s.timeouts := by
    rw [h.timeouts_cancel]
    exact List.erase_sublist
  refine ⟨h.nodup.sublist hsub, fun t' => ?_, fun t' ht' => ?_, ?_⟩
  · rw [h.timeouts_cancel, h.nodup.mem_erase_iff, pending_cancel, h.mem]
    split_ifs with heq
    · simp [heq]
    · simp [heq]
  · rw [time_cancel]
    exact h.time t' (hsub.subset ht')
  · simp only [time_cancel]
    exact h.sorted.sublist hsub

theorem deadlines_cancel (s : Timers) (t : ℕ) :
    (s.cancel t).1.deadlines = Function.update s.deadlines t none := by
  funext t'
  rw [deadlines, pending_cancel, time_cancel, Function.update_apply, deadlines]
  split_ifs <;> simp_all

theorem ret_cancel (s : Timers) (t : ℕ) :
    (s.cancel t).2 = if (s.deadlines t).isSome then 0 else -1 := by
  rw [Timers.cancel, deadlines]
  split_ifs <;> simp_all

/-- The state in which `uloop_timeout_set` adds the timer. -/
def withTime (s : Timers) (t : ℕ) (msecs : ℤ) (now : Timeval) : Timers :=
  { (s.cancel t).1 with
    timer := Function.update (s.cancel t).1.timer t
      { (s.cancel t).1.timer t with time := addMsecs now msecs } }

theorem set_eq (s : Timers) (t : ℕ) (msecs : ℤ) (now : Timeval) :
    s.set t msecs now = (s.withTime t msecs now).add t := by
  have hcancel : (if (s.timer t).pending then (s.cancel t).1 else s) = (s.cancel t).1 := by
    rw [cancel]
    split_ifs with hp
    · rfl
    · rfl
  rw [set]
  dsimp only
  rw [hcancel, withTime]

theorem pending_withTime (s : Timers) (t : ℕ) (msecs : ℤ) (now : Timeval) (t' : ℕ) :
    ((s.withTime t msecs now).timer t').pending = ((s.cancel t).1.timer t').pending := by
  rw [withTime]
  dsimp only
  rw [Function.update_apply]
  split_ifs with heq
  · rw [heq]
  · rfl

theorem time_withTime (s : Timers) (t : ℕ) (msecs : ℤ) (now : Timeval) (t' : ℕ) :
    ((s.withTime t msecs now).timer t').time =
      if t' = t then addMsecs now msecs else (s.timer t').time := by
  rw [withTime, ← time_cancel s t t']
  dsimp only
  rw [Function.update_apply]
  split_ifs with heq
  · rfl
  · rfl

/-- A timer that is set is added to the others. -/
theorem set_spec (s : Timers) (t : ℕ) (msecs : ℤ) (now : Timeval) :
    (s.set t msecs now).2 = 0 ∧
    (s.set t msecs now).1.timeouts =
      (s.cancel t).1.timeouts.takeWhile ((s.withTime t msecs now).notLater t) ++
        t :: (s.cancel t).1.timeouts.dropWhile ((s.withTime t msecs now).notLater t) ∧
    (∀ t', ((s.set t msecs now).1.timer t').time =
      if t' = t then addMsecs now msecs else (s.timer t').time) ∧
    ∀ t', ((s.set t msecs now).1.timer t').pending =
      if t' = t then true else (s.timer t').pending := by
  have hp : ((s.withTime t msecs now).timer t).pending = false := by
    rw [pending_withTime, pending_cancel, if_pos rfl]
  rw [set_eq, add, if_neg (Bool.not_eq_true _ ▸ hp)]
  refine ⟨rfl, rfl, fun t' => ?_, fun t' => ?_⟩
  · rw [← time_withTime]
    dsimp only
    rw [Function.update_apply]
    split_ifs with heq
    · rw [heq]
    · rfl
  · dsimp only
    rw [Function.update_apply]
    split_ifs with heq
    · rfl
    · rw [pending_withTime, pending_cancel, if_neg heq]

/-- The others keep their times when a timer is set. -/
theorem Ok.time_of_mem_cancel (h : s.Ok) {t t' : ℕ} (ht' : t' ∈ (s.cancel t).1.timeouts) :
    t' ≠ t ∧ t' ∈ s.timeouts := by
  rwa [h.timeouts_cancel, h.nodup.mem_erase_iff] at ht'

theorem Ok.set (h : s.Ok) (t : ℕ) {msecs : ℤ} {now : Timeval} (hmsecs : 0 ≤ msecs)
    (hnow : now.IsClock) (hnear : s.Near (now.micros + msecs * 1000)) :
    (s.set t msecs now).1.Ok := by
  obtain ⟨-, htimeouts, htime, hpending⟩ := set_spec s t msecs now
  obtain ⟨hok, hmicros⟩ := addMsecs_spec hnow hmsecs
  have hcancel := h.cancel t
  have hperm := insert_perm ((s.withTime t msecs now).notLater t) t (s.cancel t).1.timeouts
  rw [← htimeouts] at hperm
  have hother : ∀ t' ∈ (s.cancel t).1.timeouts,
      ((s.set t msecs now).1.timer t').time = (s.timer t').time := fun t' ht' => by
    rw [htime, if_neg (h.time_of_mem_cancel ht').1]
  have hself : ((s.set t msecs now).1.timer t).time = addMsecs now msecs := by
    rw [htime, if_pos rfl]
  refine ⟨?_, fun t' => ?_, fun t' ht' => ?_, ?_⟩
  · rw [hperm.nodup_iff, List.nodup_cons, h.timeouts_cancel]
    exact ⟨h.nodup.not_mem_erase, h.nodup.erase t⟩
  · rw [hperm.mem_iff, List.mem_cons, h.timeouts_cancel, h.nodup.mem_erase_iff, hpending, h.mem]
    split_ifs with heq
    · simp [heq]
    · simp [heq]
  · rw [hperm.mem_iff, List.mem_cons] at ht'
    rcases ht' with rfl | ht'
    · rwa [hself]
    · rw [hother t' ht']
      exact h.time t' (h.time_of_mem_cancel ht').2
  · rw [htimeouts]
    refine pairwise_insert (r := fun t₁ t₂ =>
      Later ((s.set t msecs now).1.timer t₁).time ((s.set t msecs now).1.timer t₂).time)
      ?_ (fun t' ht' => ?_) (fun t' => not_later_self _) fun t₁ h₁ t₂ h₂ h₁t ht₂ => ?_
    · refine hcancel.sorted.imp_of_mem fun h₁ h₂ h₁₂ => ?_
      rwa [hother _ h₁, hother _ h₂, ← time_cancel s t, ← time_cancel s t]
    · obtain ⟨hne, ht'⟩ := h.time_of_mem_cancel ht'
      have hnear' := hnear t' ht'
      rw [← hmicros] at hnear'
      rw [notLater, decide_eq_true_eq, time_withTime, time_withTime, if_neg hne, if_pos rfl, hself,
        htime, if_neg hne, ← tvDiff_pos_iff (h.time t' ht') hok hnear', Int.not_lt]
    · rw [hself] at h₁t ht₂
      rw [hother t₂ h₂] at ht₂ ⊢
      exact h₁t.trans hok (h.time t₂ (h.time_of_mem_cancel h₂).2) ht₂

theorem deadlines_set (s : Timers) (t : ℕ) {msecs : ℤ} {now : Timeval} (hmsecs : 0 ≤ msecs)
    (hnow : now.IsClock) :
    (s.set t msecs now).1.deadlines =
      Function.update s.deadlines t (some (now.micros + msecs * 1000)) := by
  obtain ⟨-, -, htime, hpending⟩ := set_spec s t msecs now
  funext t'
  rw [deadlines, hpending, htime, Function.update_apply, deadlines]
  by_cases heq : t' = t
  · simp [heq, (addMsecs_spec hnow hmsecs).2]
  · simp [heq]

/-- An iteration of a pass: the head of the list is called unless it is later. -/
theorem Ok.processIter (h : s.Ok) {tv : Timeval} (htv : tv.IsClock) (hnear : s.Near tv.micros) :
    (s.timeouts.head?.all fun t => decide (Later (s.timer t).time tv)) = true ∧
        s.processIter tv = (s, none) ∨
      ∃ t rest, s.timeouts = t :: rest ∧ ¬ Later (s.timer t).time tv ∧
        s.processIter tv = ((s.cancel t).1, some t) := by
  rw [Timers.processIter]
  cases htimeouts : s.timeouts with
  | nil => exact Or.inl ⟨rfl, rfl⟩
  | cons t rest =>
    have hmem : t ∈ s.timeouts := htimeouts ▸ List.mem_cons_self
    have hlater := tvDiff_pos_iff (h.time t hmem) htv.ok (hnear t hmem)
    dsimp only
    split_ifs with hpos
    · exact Or.inl ⟨by simp [hlater.mp hpos], rfl⟩
    · exact Or.inr ⟨t, rest, rfl, mt hlater.mpr hpos, rfl⟩

/-- No timer comes much before the head of the list. -/
theorem Ok.not_later_head (h : s.Ok) {t : ℕ} {rest : List ℕ} (htimeouts : s.timeouts = t :: rest)
    {t' : ℕ} (ht' : t' ∈ s.timeouts) : ¬ Later (s.timer t).time (s.timer t').time := by
  have hsorted := h.sorted
  rw [htimeouts, List.pairwise_cons] at hsorted
  rw [htimeouts, List.mem_cons] at ht'
  rcases ht' with rfl | ht'
  · exact not_later_self _
  · exact hsorted.1 t' ht'

theorem Ok.lt_head (h : s.Ok) {t : ℕ} {rest : List ℕ} (htimeouts : s.timeouts = t :: rest)
    {t' : ℕ} {d' : ℤ} (hd' : d' ∈ s.deadlines t') :
    (s.timer t).time.micros < d' + 1000 := by
  obtain ⟨hp, rfl⟩ := mem_deadlines.mp hd'
  have ht' := (h.mem t').mpr hp
  exact lt_of_not_later (h.time t (htimeouts ▸ List.mem_cons_self)) (h.time t' ht')
    (h.not_later_head htimeouts ht')

theorem Ok.deadline_of_mem (h : s.Ok) {t : ℕ} (ht : t ∈ s.timeouts) :
    s.deadlines t = some (s.timer t).time.micros :=
  if_pos ((h.mem t).mp ht)

theorem Ok.deadlines_of_nil (h : s.Ok) (hnil : s.timeouts = []) (t : ℕ) :
    s.deadlines t = none := by
  rw [deadlines_eq_none]
  exact Bool.eq_false_of_not_eq_true (mt (h.mem t).mpr (by simp [hnil]))

theorem Ok.step_iter (h : s.Ok) {tv : Timeval} (htv : tv.IsClock) (hnear : s.Near tv.micros) :
    Deadlines.Step s.deadlines (s.step (.iter tv)).2 (s.step (.iter tv)).1.deadlines ∧
      (s.step (.iter tv)).1.Ok := by
  rw [step]
  rcases h.processIter htv hnear with ⟨hhead, hiter⟩ | ⟨t, rest, htimeouts, hlater, hiter⟩
  · rw [hiter]
    refine ⟨.ended fun t' d' hd' => ?_, h⟩
    obtain ⟨hp, rfl⟩ := mem_deadlines.mp hd'
    have ht' := (h.mem t').mpr hp
    obtain ⟨t, rest, htimeouts⟩ := List.exists_cons_of_ne_nil (List.ne_nil_of_mem ht')
    rw [htimeouts, List.head?_cons, Option.all_some, decide_eq_true_eq] at hhead
    exact lt_of_later (h.time t (htimeouts ▸ List.mem_cons_self)) (h.time t' ht') htv hhead
      (h.not_later_head htimeouts ht')
  · have hmem : t ∈ s.timeouts := htimeouts ▸ List.mem_cons_self
    rw [hiter]
    dsimp only
    rw [deadlines_cancel]
    exact ⟨.fired (h.deadline_of_mem hmem) (lt_of_not_later (h.time t hmem) htv.ok hlater)
      fun t' d' hd' => h.lt_head htimeouts hd', h.cancel t⟩

theorem Ok.step_sleep (h : s.Ok) {now : Timeval} (hnear : s.Near now.micros) :
    Deadlines.Step s.deadlines (.sleep now.micros (s.nextTimeout now)) s.deadlines := by
  rw [nextTimeout]
  cases htimeouts : s.timeouts with
  | nil => exact .idle (h.deadlines_of_nil htimeouts)
  | cons t rest =>
    have hmem : t ∈ s.timeouts := htimeouts ▸ List.mem_cons_self
    have habs := abs_lt.mp (abs_tvDiff_sub_lt (hnear t hmem))
    dsimp only
    split_ifs with hneg
    · exact .sleep le_rfl (h.deadline_of_mem hmem) (Or.inl rfl) (Or.inl rfl)
    · refine .sleep (by omega) (h.deadline_of_mem hmem) (Or.inr (by omega))
        (Or.inr fun t' d' hd' => ?_)
      have hlt := h.lt_head htimeouts hd'
      omega

theorem Ok.step_remaining (h : s.Ok) {t : ℕ} {now : Timeval} (hnear : s.Near now.micros) :
    Deadlines.Step s.deadlines (.remaining t now.micros (s.remaining t now)) s.deadlines := by
  rw [remaining]
  refine .remaining (fun hnone => ?_) fun d hd => ?_
  · rw [deadlines_eq_none.mp hnone]
    rfl
  · obtain ⟨hp, rfl⟩ := mem_deadlines.mp hd
    rw [if_pos hp]
    exact abs_tvDiff_sub_lt (hnear t ((h.mem t).mpr hp))

/-- A good operation is a step of the timers as their users see them. -/
theorem Ok.step (h : s.Ok) {op : TimerOp} (hgood : s.Good op) :
    Deadlines.Step s.deadlines (s.step op).2 (s.step op).1.deadlines ∧ (s.step op).1.Ok := by
  cases op with
  | set t msecs now =>
    obtain ⟨hmsecs, hnow, hnear⟩ := hgood
    rw [Timers.step, (set_spec s t msecs now).1, deadlines_set s t hmsecs hnow]
    exact ⟨.set, h.set t hmsecs hnow hnear⟩
  | cancel t =>
    rw [Timers.step, ret_cancel, deadlines_cancel]
    exact ⟨.cancel, h.cancel t⟩
  | remaining t now => exact ⟨h.step_remaining hgood.2, h⟩
  | iter tv => exact h.step_iter hgood.1 hgood.2
  | sleep now => exact ⟨h.step_sleep hgood.2, h⟩

theorem Ok.accepts (h : s.Ok) {ops : List TimerOp} (hgood : Always Timers.step Good s ops) :
    ∃ a, Accepts Deadlines.Step s.deadlines (Shown Timers.step s ops) a ∧
      (behind Timers.step s ops).Ok ∧ a = (behind Timers.step s ops).deadlines := by
  have hsim : ∀ (s : Timers) (a : Deadlines) (op : TimerOp), s.Ok ∧ a = s.deadlines → s.Good op →
      ∃ a', Deadlines.Step a (s.step op).2 a' ∧
        (s.step op).1.Ok ∧ a' = (s.step op).1.deadlines := by
    rintro s a op ⟨hok, rfl⟩ hop
    obtain ⟨hstep, hok'⟩ := hok.step hop
    exact ⟨_, hstep, hok', rfl⟩
  exact accepts_of_simulates (R := fun s a => s.Ok ∧ a = s.deadlines) hsim hgood ⟨h, rfl⟩

/-- **The timers do what their users expect**: in every order of operations, a timer that is set is
called once, not more than a millisecond before its time and not while another one is more than a
millisecond earlier; a pass leaves no timer whose time has come; and the loop does not sleep two
milliseconds longer than until the first timer. -/
theorem accepts_of_timerRun {ops : List TimerOp} (hgood : Always Timers.step Good {} ops) :
    ∃ a, Accepts Deadlines.Step (fun _ => none) (Shown Timers.step {} ops) a ∧
      (behind Timers.step {} ops).Ok ∧ a = (behind Timers.step {} ops).deadlines :=
  ok_start.accepts hgood

/-- Two timers: the second one ends first, between them the loop sleeps. -/
theorem accepts_of_timerRun_two :
    ∃ ops a, ops.length = 7 ∧
      Accepts Deadlines.Step (fun _ => none) (Shown Timers.step {} ops) a ∧
      (behind Timers.step {} ops).Ok ∧ a = (behind Timers.step {} ops).deadlines := by
  have hgood : Always Timers.step Good {}
      [.set 1 2000 ⟨7, 999500⟩, .set 2 1000 ⟨7, 999700⟩, .sleep ⟨7, 999900⟩, .iter ⟨9, 100⟩,
        .iter ⟨9, 100⟩, .remaining 1 ⟨9, 200⟩, .cancel 1] := by
    decide
  obtain ⟨a, ha⟩ := accepts_of_timerRun hgood
  exact ⟨_, a, rfl, ha⟩

/-! ### The end of a pass -/

/-- An operation while a pass that has begun at `tv` goes on: the callbacks set timers for a
millisecond or longer. -/
def InPass (tv : Timeval) : TimerOp → Prop
  | .set _ msecs now => 1 ≤ msecs ∧ tv.micros ≤ now.micros
  | .iter tv' => tv' = tv
  | .cancel _ | .remaining _ _ | .sleep _ => True

/-- A timer is called. -/
def IsFired : TimerLabel → Bool
  | .fired _ _ => true
  | _ => false

/-- The timers that the pass can still call. -/
def due (s : Timers) (tv : Timeval) : ℕ :=
  s.timeouts.countP fun t => ¬ Later (s.timer t).time tv

theorem Ok.due_cancel_le (h : s.Ok) (t : ℕ) (tv : Timeval) : (s.cancel t).1.due tv ≤ s.due tv := by
  rw [due, due, h.timeouts_cancel]
  simp only [time_cancel]
  exact List.erase_sublist.countP_le

theorem Ok.due_cancel_lt (h : s.Ok) {t : ℕ} (ht : t ∈ s.timeouts) {tv : Timeval}
    (hdue : ¬ Later (s.timer t).time tv) : (s.cancel t).1.due tv + 1 = s.due tv := by
  rw [due, due, h.timeouts_cancel, (List.perm_cons_erase ht).countP_eq,
    List.countP_cons_of_pos (by simp [hdue])]
  simp only [time_cancel]

theorem Ok.due_set_le (h : s.Ok) (t : ℕ) {msecs : ℤ} {now tv : Timeval} (htv : tv.IsClock)
    (hmsecs : 1 ≤ msecs) (hnow : now.IsClock) (hle : tv.micros ≤ now.micros) :
    (s.set t msecs now).1.due tv ≤ s.due tv := by
  obtain ⟨-, htimeouts, htime, -⟩ := set_spec s t msecs now
  obtain ⟨hok, hmicros⟩ := addMsecs_spec hnow (by omega : 0 ≤ msecs)
  have hlater : Later (addMsecs now msecs) tv := later_of_le hok htv (by omega)
  have hperm := insert_perm ((s.withTime t msecs now).notLater t) t (s.cancel t).1.timeouts
  refine le_trans (le_of_eq ?_) (h.due_cancel_le t tv)
  rw [due, due, htimeouts, hperm.countP_eq, List.countP_cons_of_neg (by simp [htime, hlater])]
  refine List.countP_congr fun t' ht' => ?_
  rw [htime, if_neg (h.time_of_mem_cancel ht').1, time_cancel]

/-- An operation of a pass makes no timer due, and a call takes one away. -/
theorem Ok.due_step (h : s.Ok) {tv : Timeval} (htv : tv.IsClock) {op : TimerOp}
    (hpass : InPass tv op) (hgood : s.Good op) :
    (s.step op).1.due tv + (if IsFired (s.step op).2 then 1 else 0) ≤ s.due tv := by
  cases op with
  | set t msecs now => exact h.due_set_le t htv hpass.1 hgood.2.1 hpass.2
  | cancel t => exact h.due_cancel_le t tv
  | remaining t now => exact le_rfl
  | sleep now => exact le_rfl
  | iter tv' =>
    obtain rfl : tv' = tv := hpass
    rw [Timers.step]
    rcases h.processIter htv hgood.2 with ⟨-, hiter⟩ | ⟨t, rest, htimeouts, hlater, hiter⟩
    · rw [hiter]
      exact le_rfl
    · rw [hiter]
      exact (h.due_cancel_lt (htimeouts ▸ List.mem_cons_self) hlater).le

theorem Ok.fired_le (h : s.Ok) {tv : Timeval} (htv : tv.IsClock) {ops : List TimerOp}
    (hpass : ∀ op ∈ ops, InPass tv op) (hgood : Always Timers.step Good s ops) :
    (Shown Timers.step s ops).countP IsFired ≤ s.due tv := by
  induction ops generalizing s with
  | nil => exact Nat.zero_le _
  | cons op ops ih =>
    rw [List.forall_mem_cons] at hpass
    have hstep := h.due_step htv hpass.1 hgood.1
    have hrest := ih (h.step hgood.1).2 hpass.2 hgood.2
    rw [Shown, List.countP_cons]
    omega

/-- **A pass over the timers ends**: when the callbacks set timers for a millisecond or longer, it
calls no more timers than the list has had when it began, whatever the callbacks set and cancel. -/
theorem fired_le_of_pass {pre ops : List TimerOp} {tv : Timeval} (htv : tv.IsClock)
    (hgood : Always Timers.step Good {} (pre ++ ops)) (hpass : ∀ op ∈ ops, InPass tv op) :
    (Shown Timers.step (behind Timers.step {} pre) ops).countP IsFired ≤
      (behind Timers.step {} pre).timeouts.length := by
  obtain ⟨hpre, hops⟩ := always_append.mp hgood
  obtain ⟨-, -, hok, -⟩ := ok_start.accepts hpre
  exact (hok.fired_le htv hpass hops).trans List.countP_le_length

/-- A pass calls two timers, of which the first one sets itself again. -/
theorem fired_le_of_pass_two :
    ∃ pre ops : List TimerOp, pre.length = 2 ∧ ops.length = 4 ∧
      (Shown Timers.step (behind Timers.step {} pre) ops).countP IsFired ≤
        (behind Timers.step {} pre).timeouts.length := by
  let pre : List TimerOp := [.set 1 1000 ⟨0, 0⟩, .set 2 1000 ⟨0, 100⟩]
  let ops : List TimerOp :=
    [.iter ⟨1, 500⟩, .set 1 1000 ⟨1, 600⟩, .iter ⟨1, 500⟩, .iter ⟨1, 500⟩]
  have hgood : Always Timers.step Good {} (pre ++ ops) := by decide
  have hpass : ∀ op ∈ ops, InPass ⟨1, 500⟩ op := by
    simp [ops, InPass, Timeval.micros]
  exact ⟨pre, ops, rfl, rfl, fired_le_of_pass (by decide) hgood hpass⟩

end Timers

end M57Card.Libubox
