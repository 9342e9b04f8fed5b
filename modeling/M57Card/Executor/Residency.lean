import Mathlib.Algebra.Order.Ring.Int
import Mathlib.Data.List.Induction

/-!
# Residency on a frequency

`is_sigal_residency_time_arrived` (`spm_fpga.c`, lines 1056–1066) decides when to leave a frequency.
The policy and the presence of a signal give a residence time (`signal_residency_policy`), which may
be permanent; the elapsed time is read from a timer with microseconds in 32 signed bits
(`_get_run_timer`). A permanent residence is encoded as the time `-1`, and is compared like a time.

An `int` has 32 bits and a `long` 64 bits; a product that overflows an `int` has no value here.

## Main definitions

* `getRunTimer`, `signalResidencyPolicy`, `isSigalResidencyTimeArrived` : the model.
* `residence`, `MustSwitch` : the policy as the comments have it.
* `ReadsRight` : the residence times and elapsed times for which the decision is right.

## Main results

* `follows_policy_iff` : when the decision follows the policy.
* `runTimer_eq_lastSwitch` : the timer has the time of the last switch.
-/

namespace M57Card.Executor

/-! ### The model -/

/-- `struct timeval`. -/
structure Timeval where
  sec : ℤ
  usec : ℤ
  deriving DecidableEq

/-- The time in microseconds. -/
def Timeval.us (t : Timeval) : ℤ := t.sec * 1000000 + t.usec

/-- A timer that was never set. -/
def Timeval.IsUnset (t : Timeval) : Prop := t.sec = 0 ∧ t.usec = 0

instance (t : Timeval) : Decidable t.IsUnset := inferInstanceAs (Decidable (_ ∧ _))

/-- `_get_run_timer`: the reading, and the timer, which the first reading sets. -/
def getRunTimer (timer now : Timeval) : ℤ × Timeval :=
  if timer.IsUnset then (0, now)
  else
    let us := Int.bmod ((now.sec - timer.sec) * 1000000 + (now.usec - timer.usec)) (2 ^ 32)
    (if 0 < us then us else 0, timer)

/-- `POLICY1_SWITCH`. -/
def POLICY1_SWITCH : ℤ := 0

/-- `POLICY2_PENDING`. -/
def POLICY2_PENDING : ℤ := -1

/-- `POLICY4_NEXT`. -/
def POLICY4_NEXT : ℤ := -2

/-- `NO_SIGAL_WAIT_TIME`, in milliseconds. -/
def NO_SIGAL_WAIT_TIME : ℤ := 1000

/-- The product of two numbers as an `int`. -/
def intMul (a b : ℤ) : Option ℤ :=
  if -2 ^ 31 ≤ a * b ∧ a * b < 2 ^ 31 then some (a * b) else none

/-- `signal_residency_policy`: the residence time in milliseconds, `-1` for a permanent one. -/
def signalResidencyPolicy (policy : Int32) (isSignal : Bool) : Option ℤ :=
  if policy.toInt = POLICY2_PENDING then
    if isSignal then some (-1) else some NO_SIGAL_WAIT_TIME
  else if policy.toInt = POLICY1_SWITCH then
    if isSignal then some (-1) else some 3000
  else if isSignal then
    -- a negative policy is an error, which is printed
    if 0 < policy.toInt then intMul policy.toInt 1000 else some (-1)
  else some NO_SIGAL_WAIT_TIME

/-- What `is_sigal_residency_time_arrived` leaves: its return value and the timer. -/
structure Residency where
  arrived : Option Bool
  timer : Timeval

/-- `is_sigal_residency_time_arrived`, when the timer is read at `now` and set at `reset`. -/
def isSigalResidencyTimeArrived (policy : Int32) (isSignal : Bool) (timer now reset : Timeval) :
    Residency :=
  if policy.toInt = POLICY4_NEXT then ⟨some true, timer⟩
  else
    match signalResidencyPolicy policy isSignal with
    | none => ⟨none, timer⟩
    | some residencyTime =>
        if (getRunTimer timer now).1 < residencyTime * 1000 then
          ⟨some false, (getRunTimer timer now).2⟩
        else ⟨some true, reset⟩

/-! ### The policy -/

/-- The residence time in microseconds, as the comments on the policies have it; nothing for a
permanent one. -/
def residence (policy : ℤ) (isSignal : Bool) : Option ℤ :=
  if isSignal then if 0 < policy then some (policy * 1000000) else none
  else if policy = 0 then some 3000000 else some 1000000

/-- The elapsed time since the timer was set. -/
def elapsed (timer now : Timeval) : ℤ := if timer.IsUnset then 0 else now.us - timer.us

/-- The frequency is left: at once, or after a residence time that is not permanent. -/
def MustSwitch (policy : ℤ) (isSignal : Bool) (time : ℤ) : Prop :=
  policy = -2 ∨ ∃ r, residence policy isSignal = some r ∧ r ≤ time

/-- The timer reads an elapsed time `time` well enough for a residence time of `r` microseconds:
below `2 ^ 31` the residence is over only while the reading says so, and above no reading reaches
it. -/
def ReadsRight (r time : ℤ) : Prop :=
  if r < 2 ^ 31 then time < 2 ^ 31 ∨ r ≤ time % 2 ^ 32 ∧ time % 2 ^ 32 < 2 ^ 31 else time < r

/-- The residence times for which the decision is right. -/
def ResidesRight (policy : ℤ) (isSignal : Bool) (time : ℤ) : Prop :=
  policy = -2 ∨ ∃ r, residence policy isSignal = some r ∧
    (isSignal → policy * 1000 < 2 ^ 31) ∧ ReadsRight r time

/-- The decision has a value, and it is the one of the policy. -/
def FollowsPolicy (policy : Int32) (isSignal : Bool) (timer now reset : Timeval) : Prop :=
  ∃ b, (isSigalResidencyTimeArrived policy isSignal timer now reset).arrived = some b ∧
    (b = true ↔ MustSwitch policy.toInt isSignal (elapsed timer now))

/-! ### The decision -/

/-- The reading of the timer when `time` microseconds are over. -/
def reading (time : ℤ) : ℤ :=
  if 0 < Int.bmod time (2 ^ 32) then Int.bmod time (2 ^ 32) else 0

theorem reading_nonneg (time : ℤ) : 0 ≤ reading time := by
  unfold reading
  split_ifs with h
  · exact h.le
  · exact le_rfl

theorem getRunTimer_fst (timer now : Timeval) :
    (getRunTimer timer now).1 = reading (elapsed timer now) := by
  unfold getRunTimer elapsed
  split_ifs with hunset
  · rfl
  · have hus : (now.sec - timer.sec) * 1000000 + (now.usec - timer.usec) = now.us - timer.us := by
      unfold Timeval.us
      omega
    simp only [hus, reading]

/-- A reading compares like the elapsed time exactly where it reads right. -/
theorem reading_iff {r time : ℤ} (hr : 0 < r) (htime : 0 ≤ time) :
    (r ≤ reading time ↔ r ≤ time) ↔ ReadsRight r time := by
  have hmod := Int.emod_add_mul_ediv time (2 ^ 32)
  have hlt := Int.emod_lt_of_pos time (by decide : (0 : ℤ) < 2 ^ 32)
  have hge := Int.emod_nonneg time (by decide : (2 ^ 32 : ℤ) ≠ 0)
  have hbmod : Int.bmod time (2 ^ 32) =
      if time % 2 ^ 32 < 2 ^ 31 then time % 2 ^ 32 else time % 2 ^ 32 - 2 ^ 32 := by
    rw [Int.bmod_def]
    rfl
  unfold reading ReadsRight
  rw [hbmod]
  split_ifs <;> omega

theorem residence_pos {policy r : ℤ} {isSignal : Bool} (h : residence policy isSignal = some r) :
    0 < r := by
  unfold residence at h
  split_ifs at h with hsignal hpos hzero <;> simp only [Option.some.injEq] at h <;> omega

/-- A permanent residence is encoded as `-1`. -/
theorem signalResidencyPolicy_of_permanent {policy : Int32} {isSignal : Bool}
    (h : residence policy.toInt isSignal = none) :
    signalResidencyPolicy policy isSignal = some (-1) := by
  cases isSignal with
  | false =>
    simp only [residence, Bool.false_eq_true, if_false] at h
    split_ifs at h
  | true =>
    have hpos : ¬ 0 < policy.toInt := by
      intro hpos
      simp [residence, hpos] at h
    simp [signalResidencyPolicy, hpos]

/-- A residence time is given in milliseconds, unless their number overflows. -/
theorem signalResidencyPolicy_of_residence {policy : Int32} {isSignal : Bool} {r : ℤ}
    (h : residence policy.toInt isSignal = some r) :
    signalResidencyPolicy policy isSignal =
      if isSignal → policy.toInt * 1000 < 2 ^ 31 then some (r / 1000) else none := by
  cases isSignal with
  | false =>
    simp only [residence, Bool.false_eq_true, if_false] at h
    simp only [signalResidencyPolicy, POLICY1_SWITCH, POLICY2_PENDING, Bool.false_eq_true, if_false,
      NO_SIGAL_WAIT_TIME, false_implies, if_true]
    split_ifs at h ⊢ <;> simp only [Option.some.injEq] at h ⊢ <;> omega
  | true =>
    simp only [residence, if_true] at h
    split_ifs at h with hpos
    simp only [Option.some.injEq] at h
    have hne0 : policy.toInt ≠ 0 := by omega
    have hne1 : policy.toInt ≠ -1 := by omega
    simp only [signalResidencyPolicy, POLICY1_SWITCH, POLICY2_PENDING, hne0, hne1, if_false,
      if_true, hpos, intMul, true_implies]
    split_ifs
    · simp only [Option.some.injEq]
      omega
    · omega
    · omega
    · rfl

/-- The decision with a residence time `r`. -/
theorem arrived_of_residence {policy : Int32} {isSignal : Bool} {r : ℤ}
    (h : residence policy.toInt isSignal = some r) (hne : policy.toInt ≠ -2)
    (timer now reset : Timeval) :
    (isSigalResidencyTimeArrived policy isSignal timer now reset).arrived =
      if isSignal → policy.toInt * 1000 < 2 ^ 31 then
        some (decide (r ≤ reading (elapsed timer now)))
      else none := by
  have hms : r / 1000 * 1000 = r := by
    unfold residence at h
    split_ifs at h <;> simp only [Option.some.injEq] at h <;> omega
  rw [isSigalResidencyTimeArrived, POLICY4_NEXT, if_neg hne, signalResidencyPolicy_of_residence h]
  split_ifs with hfits
  · simp only [getRunTimer_fst, hms]
    split_ifs with hlt
    · simp [not_le.2 hlt]
    · simp [not_lt.1 hlt]
  · rfl

/-- A permanent residence ends at once. -/
theorem arrived_of_permanent {policy : Int32} {isSignal : Bool}
    (h : residence policy.toInt isSignal = none) (timer now reset : Timeval) :
    (isSigalResidencyTimeArrived policy isSignal timer now reset).arrived = some true := by
  rw [isSigalResidencyTimeArrived, signalResidencyPolicy_of_permanent h]
  have hread := reading_nonneg (elapsed timer now)
  split_ifs with hnext
  · rfl
  · simp only [getRunTimer_fst]
    rw [if_neg (by omega)]

/-- The decision follows the policy exactly for a finite residence time whose milliseconds are an
`int`, at the elapsed times that the timer reads right for it. -/
theorem follows_policy_iff (policy : Int32) (isSignal : Bool) (timer now reset : Timeval)
    (hclock : 0 ≤ elapsed timer now) :
    FollowsPolicy policy isSignal timer now reset ↔
      ResidesRight policy.toInt isSignal (elapsed timer now) := by
  unfold FollowsPolicy MustSwitch ResidesRight
  by_cases hnext : policy.toInt = -2
  · simp [isSigalResidencyTimeArrived, POLICY4_NEXT, hnext]
  cases hres : residence policy.toInt isSignal with
  | none => simp [arrived_of_permanent hres, hnext]
  | some r =>
    rw [arrived_of_residence hres hnext]
    split_ifs with hfits
    · simp only [hnext, false_or, Option.some.injEq, exists_eq_left', decide_eq_true_eq,
        iff_true_intro hfits, true_and, reading_iff (residence_pos hres) hclock]
    · simp only [hnext, false_or, Option.some.injEq, exists_eq_left', iff_false_intro hfits,
        false_and, exists_false]

/-- A policy of five seconds with a signal is followed after six seconds. -/
theorem follows_policy_iff_five :
    FollowsPolicy 5 true ⟨100, 0⟩ ⟨106, 0⟩ ⟨106, 1⟩ ↔
      ResidesRight (5 : Int32).toInt true (elapsed ⟨100, 0⟩ ⟨106, 0⟩) :=
  follows_policy_iff 5 true ⟨100, 0⟩ ⟨106, 0⟩ ⟨106, 1⟩ (by decide)

/-- With the policy to stay on a signal, the frequency is left in the first microsecond. -/
theorem not_followsPolicy_pending :
    ¬ ∀ (policy : Int32) (isSignal : Bool) (timer now reset : Timeval), -2 ≤ policy.toInt →
      0 ≤ elapsed timer now → FollowsPolicy policy isSignal timer now reset := by
  intro h
  obtain ⟨b, harrived, hmust⟩ :=
    h (-1) true ⟨100, 0⟩ ⟨100, 1⟩ ⟨100, 2⟩ (by decide) (by decide)
  have hleft : (isSigalResidencyTimeArrived (-1) true ⟨100, 0⟩ ⟨100, 1⟩ ⟨100, 2⟩).arrived =
      some true := by decide
  rw [hleft, Option.some.injEq] at harrived
  obtain hnext | ⟨r, hr, -⟩ := hmust.1 harrived.symm
  · exact absurd hnext (by decide)
  · exact absurd hr (by simp [residence, (by decide : (-1 : Int32).toInt = -1)])

/-! ### The timer -/

/-- A call of `is_sigal_residency_time_arrived`. -/
structure ResidencyCall where
  policy : Int32
  isSignal : Bool
  now : Timeval
  reset : Timeval

/-- The timer along some calls. -/
def runTimer (timer : Timeval) (cs : List ResidencyCall) : Timeval :=
  cs.foldl (fun t c => (isSigalResidencyTimeArrived c.policy c.isSignal t c.now c.reset).timer)
    timer

/-- The time of the last switch along some calls, with `last` the time of the switch before. -/
def lastSwitch (timer last : Timeval) : List ResidencyCall → Timeval
  | [] => last
  | c :: cs =>
      let res := isSigalResidencyTimeArrived c.policy c.isSignal timer c.now c.reset
      lastSwitch res.timer (if res.arrived = some true then c.reset else last) cs

/-- Once it is set, the timer has the time of the last switch, as long as no call is for the policy
to switch at once: that policy leaves the timer as it is. -/
theorem runTimer_eq_lastSwitch {timer : Timeval} (hset : ¬ timer.IsUnset) {cs : List ResidencyCall}
    (hcs : ∀ c ∈ cs, c.policy.toInt ≠ -2 ∧ ¬ c.reset.IsUnset) :
    runTimer timer cs = lastSwitch timer timer cs := by
  induction cs generalizing timer with
  | nil => rfl
  | cons c cs ih =>
    obtain ⟨⟨hpolicy, hreset⟩, hcs⟩ := List.forall_mem_cons.1 hcs
    rw [runTimer, List.foldl_cons, lastSwitch]
    have hstep : isSigalResidencyTimeArrived c.policy c.isSignal timer c.now c.reset =
          ⟨some true, c.reset⟩ ∨
        (isSigalResidencyTimeArrived c.policy c.isSignal timer c.now c.reset).arrived ≠ some true ∧
          (isSigalResidencyTimeArrived c.policy c.isSignal timer c.now c.reset).timer = timer := by
      have hkeep : (getRunTimer timer c.now).2 = timer := by
        rw [getRunTimer, if_neg hset]
      rw [isSigalResidencyTimeArrived, POLICY4_NEXT, if_neg hpolicy]
      cases signalResidencyPolicy c.policy c.isSignal with
      | none => exact .inr ⟨by simp, rfl⟩
      | some r =>
        simp only
        split_ifs
        · exact .inr ⟨by simp, hkeep⟩
        · exact .inl rfl
    obtain hleft | ⟨hstay, htimer⟩ := hstep
    · rw [hleft]
      exact ih hreset hcs
    · rw [htimer, if_neg hstay]
      exact ih hset hcs

end M57Card.Executor
