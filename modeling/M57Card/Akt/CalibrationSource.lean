import Mathlib.Algebra.Group.Nat.Even
import M57Card.Akt.ScanSegments

/-!
# Calibration source points

A request for the calibration source has a range of frequencies and a step.
`akt_cali_source_param_convert` (`akt.c`, lines 433–484) makes a point of every step and one of what
is left of the range. The number of steps is a 64-bit quotient that is stored in an `int`, the step
and the channel are not checked, and the channel id is written before the number is checked.

## Main definitions

* `aktCaliSourceParamConvert` : the model.
* `Converts` : what a request does when it is converted or refused.
* `Convertible` : the requests for which it does.

## Main results

* `stepPoints_eq`, `stepPoints_of_lt` : the loop over the steps.
* `converts_iff` : a request is converted or refused exactly when it is convertible.
-/

namespace M57Card.Akt

open Intervals

/-! ### The model -/

/-- `freq_points_st`. -/
structure FreqPoints where
  centerFreq : ℕ
  bandwidth : ℕ
  fftSize : ℕ

/-- `multi_freq_point_para_st`. -/
structure MultiFreqPointPara where
  cid : ℕ
  residenceTime : ℕ
  freqPointCnt : ℕ
  points : ℕ → FreqPoints

/-- `channel_para`. -/
structure ChannelPara where
  workMode : WorkMode
  multiFreqPointParam : MultiFreqPointPara

/-- `CALIBRATION_SOURCE_ST_V2`. -/
structure CalibrationSource where
  cid : ℕ
  sFreq : ℕ
  eFreq : ℕ
  step : ℕ
  rTimeMs : ℕ
  cid_lt : cid < 2 ^ 8
  sFreq_lt : sFreq < 2 ^ 64
  eFreq_lt : eFreq < 2 ^ 64
  step_lt : step < 2 ^ 64
  rTimeMs_lt : rTimeMs < 2 ^ 32

/-- The number of steps, as it is stored in an `int`. -/
def CalibrationSource.count (cal : CalibrationSource) : ℤ :=
  Int.bmod ((cal.eFreq - cal.sFreq) / cal.step : ℕ) (2 ^ 32)

/-- `fftsize_check`. -/
def fftsizeCheck (fftSize : ℕ) : ℕ :=
  if fftSize ∈ [64, 128, 256, 512, 1024, 2048, 4096, 8192, 16384, 32768, 65536] then fftSize
  else 2048

/-- A point with a center and a bandwidth; its `fft_size` is set when it has none. -/
def FreqPoints.set (p : FreqPoints) (centerFreq bandwidth : ℕ) : FreqPoints :=
  ⟨centerFreq, bandwidth, if p.fftSize = 0 then fftsizeCheck 2048 else p.fftSize⟩

section Model

variable (maxRfNum maxSigChannle : ℕ)

/-- The point `i` is set, which must be inside the array. -/
def setPoint (i centerFreq bandwidth : ℕ) (points : ℕ → FreqPoints) : Option (ℕ → FreqPoints) :=
  if i < maxSigChannle then
    some (Function.update points i ((points i).set centerFreq bandwidth))
  else none

/-- The loop over the steps, with `n` of them left from the step `i` on. -/
def stepPoints (cal : CalibrationSource) : ℕ → ℕ → (ℕ → FreqPoints) → Option (ℕ → FreqPoints)
  | _, 0, points => some points
  | i, n + 1, points =>
      (setPoint maxSigChannle i ((cal.sFreq + i * cal.step + cal.step / 2) % 2 ^ 64) cal.step
        points).bind (stepPoints cal (i + 1) n)

/-- The points of a request with `n` steps, and their number. -/
def allPoints (cal : CalibrationSource) (n : ℕ) (points : ℕ → FreqPoints) :
    Option (ℕ × (ℕ → FreqPoints)) :=
  (stepPoints maxSigChannle cal 0 n points).bind fun points =>
    if (cal.eFreq - cal.sFreq) % cal.step ≠ 0 then
      let leftFreq := cal.eFreq - cal.sFreq - cal.step * n
      (setPoint maxSigChannle n ((cal.sFreq + cal.step * n + leftFreq / 2) % 2 ^ 64) leftFreq
        points).map fun points => (n + 1, points)
    else some (n, points)

/-- `akt_cali_source_param_convert`: its result and the channels behind it, unless it divides by
zero or leaves an array. -/
def aktCaliSourceParamConvert (cal : CalibrationSource) (channel : ℕ → ChannelPara) :
    Option (ℤ × (ℕ → ChannelPara)) :=
  if cal.eFreq < cal.sFreq then some (-1, channel)
  else if cal.step = 0 then none
  else if cal.cid < maxRfNum then
    let c := channel cal.cid
    let point := { c.multiFreqPointParam with cid := cal.cid }
    if (maxSigChannle : ℤ) ≤ cal.count then
      some (-1, Function.update channel cal.cid { c with multiFreqPointParam := point })
    else
      -- a negative count is a large `freq_point_cnt`
      (allPoints maxSigChannle cal (cal.count % 2 ^ 32).toNat point.points).map fun r =>
        (0, Function.update channel cal.cid ⟨.multiPointScan, { point with
          freqPointCnt := r.1
          residenceTime := cal.rTimeMs
          points := r.2 }⟩)
  else none

end Model

/-! ### Converted requests -/

/-- A point as the start and the length of an interval. -/
def FreqPoints.interval (p : FreqPoints) : ℕ × ℕ := (p.centerFreq - p.bandwidth / 2, p.bandwidth)

/-- The points that are in use. -/
def MultiFreqPointPara.used (m : MultiFreqPointPara) : List FreqPoints :=
  (List.range m.freqPointCnt).map m.points

/-- The request is refused and changes nothing, or it sets at most as many points as there is room
for, and with even bandwidths their intervals lie one behind the other from the start to the end of
the range. -/
def Converts (maxRfNum maxSigChannle : ℕ) (cal : CalibrationSource) (channel : ℕ → ChannelPara) :
    Prop :=
  ∃ ret channel', aktCaliSourceParamConvert maxRfNum maxSigChannle cal channel =
      some (ret, channel') ∧
    (ret = -1 ∧ channel' = channel ∨
      ret = 0 ∧
        (channel' cal.cid).multiFreqPointParam.freqPointCnt ≤ maxSigChannle ∧
        ((∀ p ∈ (channel' cal.cid).multiFreqPointParam.used, Even p.bandwidth) →
          EndToEnd cal.sFreq
            ((channel' cal.cid).multiFreqPointParam.used.map FreqPoints.interval) cal.eFreq))

/-- The range is empty; or the step is not zero, the channel is in the array, and either there are
too many steps as an `int` and the channel has its id already, or there are not too many, and they
are really as many, unless a piece of the range is left behind them or they have an odd width. -/
def Convertible (maxRfNum maxSigChannle : ℕ) (cal : CalibrationSource)
    (channel : ℕ → ChannelPara) : Prop :=
  cal.eFreq < cal.sFreq ∨
    0 < cal.step ∧ cal.cid < maxRfNum ∧
      ((maxSigChannle : ℤ) ≤ cal.count ∧ (channel cal.cid).multiFreqPointParam.cid = cal.cid ∨
        0 ≤ cal.count ∧ cal.count < maxSigChannle ∧
          ((cal.eFreq - cal.sFreq) / cal.step < 2 ^ 32 ∨
            (cal.eFreq - cal.sFreq) % cal.step ≠ 0 ∨ cal.count ≠ 0 ∧ Odd cal.step))

/-! ### The loop -/

section Steps

variable {maxSigChannle : ℕ} {cal : CalibrationSource} {points : ℕ → FreqPoints} {i n : ℕ}

/-- The point of a step. -/
def stepPoint (cal : CalibrationSource) (i : ℕ) (p : FreqPoints) : FreqPoints :=
  p.set ((cal.sFreq + i * cal.step + cal.step / 2) % 2 ^ 64) cal.step

/-- The loop sets the points of its steps. -/
theorem stepPoints_eq (h : i + n ≤ maxSigChannle) :
    stepPoints maxSigChannle cal i n points =
      some fun k => if i ≤ k ∧ k < i + n then stepPoint cal k (points k) else points k := by
  induction n generalizing i points with
  | zero =>
    rw [stepPoints]
    refine congrArg some (funext fun k => (if_neg ?_).symm)
    omega
  | succ n ih =>
    rw [stepPoints, setPoint, if_pos (by omega), Option.bind_some, ih (by omega)]
    refine congrArg some (funext fun k => ?_)
    by_cases hk : k = i
    · subst hk
      rw [if_neg (by omega), if_pos (by omega), Function.update_self]
      rfl
    · rw [Function.update_of_ne hk]
      refine if_congr ?_ rfl rfl
      omega

/-- The loop leaves the array when there is no room for its steps. -/
theorem stepPoints_of_lt (hi : i ≤ maxSigChannle) (h : maxSigChannle < i + n) :
    stepPoints maxSigChannle cal i n points = none := by
  induction n generalizing i points with
  | zero => omega
  | succ n ih =>
    rw [stepPoints, setPoint]
    split_ifs with hlt
    · exact ih hlt (by omega)
    · rfl

/-- What is behind the loop and the rest of the range. -/
theorem allPoints_eq (cal : CalibrationSource) (points : ℕ → FreqPoints) (h : n < maxSigChannle) :
    ∃ points', allPoints maxSigChannle cal n points =
        some (if (cal.eFreq - cal.sFreq) % cal.step ≠ 0 then n + 1 else n, points') ∧
      (∀ k < n, points' k = stepPoint cal k (points k)) ∧
      points' n = if (cal.eFreq - cal.sFreq) % cal.step ≠ 0 then
        (points n).set ((cal.sFreq + cal.step * n +
          (cal.eFreq - cal.sFreq - cal.step * n) / 2) % 2 ^ 64)
          (cal.eFreq - cal.sFreq - cal.step * n)
        else points n := by
  rw [allPoints, stepPoints_eq (by omega), Option.bind_some]
  split_ifs with hrest
  · dsimp only
    rw [setPoint, if_pos h]
    refine ⟨_, rfl, fun k hk => ?_, ?_⟩
    · rw [Function.update_of_ne hk.ne, if_pos (by omega)]
    · rw [Function.update_self, if_neg (by omega)]
  · refine ⟨_, rfl, fun k hk => ?_, ?_⟩
    · exact if_pos (by omega)
    · exact if_neg (by omega)

end Steps

/-! ### The intervals -/

section Intervals

variable {cal : CalibrationSource} {n : ℕ}

theorem interval_set (p : FreqPoints) {start b : ℕ} (h : start + b / 2 < 2 ^ 64) :
    (p.set ((start + b / 2) % 2 ^ 64) b).interval = (start, b) := by
  rw [FreqPoints.set, FreqPoints.interval, Nat.mod_eq_of_lt h, Nat.add_sub_cancel]

/-- The steps lie inside the range when there are not more of them than in the range. -/
theorem mul_step_le (hle : cal.sFreq ≤ cal.eFreq)
    (hn : n ≤ (cal.eFreq - cal.sFreq) / cal.step) : cal.sFreq + n * cal.step ≤ cal.eFreq := by
  have hmul := (Nat.mul_le_mul_right cal.step hn).trans (Nat.div_mul_le_self _ _)
  omega

theorem interval_stepPoint (hle : cal.sFreq ≤ cal.eFreq)
    (hn : n < (cal.eFreq - cal.sFreq) / cal.step) (p : FreqPoints) :
    (stepPoint cal n p).interval = (cal.sFreq + n * cal.step, cal.step) := by
  refine interval_set p ?_
  have hinside := mul_step_le hle hn
  have hlt := cal.eFreq_lt
  rw [Nat.succ_mul] at hinside
  omega

end Intervals

/-! ### Converted requests -/

section Converts

variable {maxRfNum maxSigChannle : ℕ} {cal : CalibrationSource} {channel : ℕ → ChannelPara}
  {n : ℕ}

/-- A negative number of steps leaves the array. -/
theorem allPoints_of_neg (h : maxSigChannle < 2 ^ 31) (hneg : cal.count < 0)
    (points : ℕ → FreqPoints) :
    allPoints maxSigChannle cal (cal.count % 2 ^ 32).toNat points = none := by
  have hge : -((2 ^ 32 : ℕ) / 2 : ℤ) ≤ cal.count := Int.le_bmod (Nat.two_pow_pos 32)
  rw [allPoints, stepPoints_of_lt (Nat.zero_le _) (by omega)]
  rfl

/-- A number of steps that is not negative is the real one, up to `2 ^ 32`. -/
theorem count_eq (h : 0 ≤ cal.count) :
    cal.count = ((cal.eFreq - cal.sFreq) / cal.step % 2 ^ 32 : ℕ) := by
  unfold CalibrationSource.count at h ⊢
  generalize (cal.eFreq - cal.sFreq) / cal.step = q at h ⊢
  rw [Int.bmod_def] at h ⊢
  split_ifs at h ⊢
  · exact (Int.natCast_mod q (2 ^ 32)).symm
  · omega

/-- The intervals of the steps and of the rest of the range. -/
theorem endToEnd_used {m : MultiFreqPointPara} (hle : cal.sFreq ≤ cal.eFreq)
    (hn : n ≤ (cal.eFreq - cal.sFreq) / cal.step) {points : ℕ → FreqPoints}
    (hcnt : m.freqPointCnt = if (cal.eFreq - cal.sFreq) % cal.step ≠ 0 then n + 1 else n)
    (hsteps : ∀ k < n, m.points k = stepPoint cal k (points k))
    (hlast : m.points n = if (cal.eFreq - cal.sFreq) % cal.step ≠ 0 then
      (points n).set ((cal.sFreq + cal.step * n +
        (cal.eFreq - cal.sFreq - cal.step * n) / 2) % 2 ^ 64)
        (cal.eFreq - cal.sFreq - cal.step * n)
      else points n) :
    EndToEnd cal.sFreq (m.used.map FreqPoints.interval)
      (if (cal.eFreq - cal.sFreq) % cal.step ≠ 0 then cal.eFreq
        else cal.sFreq + n * cal.step) := by
  have hrange : ((List.range n).map m.points).map FreqPoints.interval =
      (List.range n).map fun i => (cal.sFreq + i * cal.step, cal.step) := by
    rw [List.map_map]
    refine List.map_congr_left fun k hk => ?_
    have hk := List.mem_range.mp hk
    rw [Function.comp_apply, hsteps k hk, interval_stepPoint hle (hk.trans_le hn)]
  have hinside := mul_step_le hle hn
  rw [MultiFreqPointPara.used, hcnt]
  split_ifs at hlast ⊢ with hrest
  · have hlt := cal.eFreq_lt
    have hpiece : (m.points n).interval =
        (cal.sFreq + n * cal.step, cal.eFreq - (cal.sFreq + n * cal.step)) := by
      rw [hlast, Nat.mul_comm cal.step n, interval_set _ (by omega)]
      exact Prod.ext rfl (by dsimp only; omega)
    rw [List.range_succ, List.map_append, List.map_append, hrange, List.map_singleton,
      List.map_singleton, hpiece]
    refine (endToEnd_range cal.sFreq cal.step n).append (.cons ?_)
    rw [Nat.add_sub_cancel' hinside]
    exact .nil _
  · rw [hrange]
    exact endToEnd_range cal.sFreq cal.step n

/-- A request that is not refused and whose number of steps is not negative. -/
theorem convert_eq (channel : ℕ → ChannelPara) (hle : cal.sFreq ≤ cal.eFreq)
    (hstep : 0 < cal.step) (hch : cal.cid < maxRfNum) (h : cal.count = n) (hn : n < maxSigChannle) :
    ∃ m, aktCaliSourceParamConvert maxRfNum maxSigChannle cal channel =
        some (0, Function.update channel cal.cid ⟨.multiPointScan, m⟩) ∧
      m.freqPointCnt = (if (cal.eFreq - cal.sFreq) % cal.step ≠ 0 then n + 1 else n) ∧
      (∀ k < n, (m.points k).bandwidth = cal.step) ∧
      EndToEnd cal.sFreq (m.used.map FreqPoints.interval)
        (if (cal.eFreq - cal.sFreq) % cal.step ≠ 0 then cal.eFreq
          else cal.sFreq + n * cal.step) := by
  have hq : n = (cal.eFreq - cal.sFreq) / cal.step % 2 ^ 32 := by
    have hcount := count_eq (h ▸ Int.natCast_nonneg n)
    rw [h] at hcount
    exact Int.ofNat_inj.mp hcount
  have hlt : n < 2 ^ 32 := hq ▸ Nat.mod_lt _ (Nat.two_pow_pos 32)
  have htoNat : ((n : ℤ) % 2 ^ 32).toNat = n := by omega
  have hnle : n ≤ (cal.eFreq - cal.sFreq) / cal.step := hq ▸ Nat.mod_le _ _
  obtain ⟨points', hall, hsteps, hlast⟩ :=
    allPoints_eq cal (channel cal.cid).multiFreqPointParam.points hn
  refine ⟨⟨cal.cid, cal.rTimeMs, _, points'⟩, ?_, rfl, fun k hk => ?_, ?_⟩
  · rw [aktCaliSourceParamConvert, if_neg (not_lt.mpr hle), if_neg hstep.ne', if_pos hch, h]
    dsimp only
    rw [if_neg (by omega), htoNat, hall]
    rfl
  · dsimp only
    rw [hsteps k hk]
    rfl
  · exact endToEnd_used hle hnle rfl hsteps hlast

/-- A request that returns 0 converts when its even intervals reach the end of the range. -/
theorem converts_iff_of_eq {m : MultiFreqPointPara}
    (heq : aktCaliSourceParamConvert maxRfNum maxSigChannle cal channel =
      some (0, Function.update channel cal.cid ⟨.multiPointScan, m⟩))
    (hroom : m.freqPointCnt ≤ maxSigChannle) :
    Converts maxRfNum maxSigChannle cal channel ↔
      ((∀ p ∈ m.used, Even p.bandwidth) →
        EndToEnd cal.sFreq (m.used.map FreqPoints.interval) cal.eFreq) := by
  rw [Converts, heq]
  constructor
  · rintro ⟨ret, channel', hsome, hret⟩
    obtain ⟨rfl, rfl⟩ := Prod.mk.inj (Option.some.inj hsome)
    rcases hret with ⟨hneg, -⟩ | ⟨-, -, htile⟩
    · exact absurd hneg (by decide)
    · rwa [Function.update_self] at htile
  · intro htile
    refine ⟨0, _, rfl, .inr ⟨rfl, ?_⟩⟩
    rw [Function.update_self]
    exact ⟨hroom, htile⟩

/-- Points that all have the width of a step are even when the step is, or when there are none. -/
theorem forall_even_used_iff {m : MultiFreqPointPara}
    (hbandwidth : ∀ k < m.freqPointCnt, (m.points k).bandwidth = cal.step) :
    (∀ p ∈ m.used, Even p.bandwidth) ↔ m.freqPointCnt = 0 ∨ Even cal.step := by
  rw [MultiFreqPointPara.used, List.forall_mem_map]
  constructor
  · intro hall
    refine or_iff_not_imp_left.mpr fun hne => ?_
    rw [← hbandwidth 0 (Nat.pos_of_ne_zero hne)]
    exact hall 0 (List.mem_range.mpr (Nat.pos_of_ne_zero hne))
  · intro hor k hk
    have hlt := List.mem_range.mp hk
    rw [hbandwidth k hlt]
    exact hor.resolve_left (Nat.ne_zero_of_lt hlt)

/-- A request that is converted, where the number of its steps may be cut to 32 bits. -/
theorem converts_iff_of_count (hle : cal.sFreq ≤ cal.eFreq) (hstep : 0 < cal.step)
    (hch : cal.cid < maxRfNum) (h : cal.count = n) (hn : n < maxSigChannle) :
    Converts maxRfNum maxSigChannle cal channel ↔
      (cal.eFreq - cal.sFreq) / cal.step < 2 ^ 32 ∨
        (cal.eFreq - cal.sFreq) % cal.step ≠ 0 ∨ n ≠ 0 ∧ Odd cal.step := by
  obtain ⟨m, heq, hcnt, hbandwidth, hend⟩ :=
    convert_eq channel hle hstep hch h hn
  have hroom : m.freqPointCnt ≤ maxSigChannle := by
    rw [hcnt]
    split_ifs <;> omega
  rw [converts_iff_of_eq heq hroom]
  by_cases hrest : (cal.eFreq - cal.sFreq) % cal.step = 0
  swap
  · rw [if_pos hrest] at hend
    exact iff_of_true (fun _ => hend) (.inr (.inl hrest))
  rw [if_neg (not_not_intro hrest)] at hend hcnt
  rw [or_iff_right (not_not_intro hrest)]
  have hwhole := Nat.div_mul_cancel (Nat.dvd_of_mod_eq_zero hrest)
  have hq : (n : ℤ) = _ := h.symm.trans (count_eq (h ▸ Int.natCast_nonneg n))
  have hq : n = (cal.eFreq - cal.sFreq) / cal.step % 2 ^ 32 := Int.ofNat_inj.mp hq
  by_cases hsmall : (cal.eFreq - cal.sFreq) / cal.step < 2 ^ 32
  · rw [Nat.mod_eq_of_lt hsmall] at hq
    rw [hq, hwhole, Nat.add_sub_cancel' hle] at hend
    exact iff_of_true (fun _ => hend) (.inl hsmall)
  · -- the steps end before the range does
    have hless : n < (cal.eFreq - cal.sFreq) / cal.step :=
      hq ▸ (Nat.mod_lt _ (Nat.two_pow_pos 32)).trans_le (Nat.le_of_not_lt hsmall)
    have hshort : cal.sFreq + n * cal.step ≠ cal.eFreq := by
      have hmul := Nat.mul_lt_mul_of_pos_right hless hstep
      omega
    have hnot : ¬ EndToEnd cal.sFreq (m.used.map FreqPoints.interval) cal.eFreq :=
      fun htile => hshort (hend.unique htile)
    have heven := forall_even_used_iff (hcnt ▸ hbandwidth)
    rw [or_iff_right hsmall, imp_iff_not hnot, heven, hcnt, not_or, Nat.not_even_iff_odd]

/-- A request with too many steps is refused, when the channel has got its id. -/
theorem converts_iff_of_many (hle : cal.sFreq ≤ cal.eFreq) (hstep : 0 < cal.step)
    (hch : cal.cid < maxRfNum) (hmany : (maxSigChannle : ℤ) ≤ cal.count) :
    Converts maxRfNum maxSigChannle cal channel ↔
      (channel cal.cid).multiFreqPointParam.cid = cal.cid := by
  rw [Converts, aktCaliSourceParamConvert, if_neg (not_lt.mpr hle), if_neg hstep.ne', if_pos hch]
  dsimp only
  rw [if_pos hmany]
  constructor
  · rintro ⟨ret, channel', hsome, hret⟩
    obtain ⟨rfl, rfl⟩ := Prod.mk.inj (Option.some.inj hsome)
    rcases hret with ⟨-, hsame⟩ | ⟨hzero, -⟩
    · have hcid := congrFun hsame cal.cid
      rw [Function.update_self] at hcid
      exact (congrArg (fun c => c.multiFreqPointParam.cid) hcid).symm
    · exact absurd hzero (by decide)
  · intro hcid
    refine ⟨-1, _, rfl, .inl ⟨rfl, ?_⟩⟩
    rw [Function.update_eq_self_iff]
    generalize channel cal.cid = c at hcid ⊢
    rw [← hcid]

/-- A request for channel `cid` without a residence time. -/
def CalibrationSource.ofRange (cid : Fin 256) (sFreq eFreq step : Fin (2 ^ 64)) :
    CalibrationSource where
  cid := cid
  sFreq := sFreq
  eFreq := eFreq
  step := step
  rTimeMs := 0
  cid_lt := cid.isLt
  sFreq_lt := sFreq.isLt
  eFreq_lt := eFreq.isLt
  step_lt := step.isLt
  rTimeMs_lt := by decide

/-- The channels before the first request. -/
def channelInit : ℕ → ChannelPara := fun _ => ⟨.null, ⟨0, 0, 0, fun _ => ⟨0, 0, 0⟩⟩⟩

/-- A request is refused without a change or converted exactly when it is convertible. -/
theorem converts_iff (maxRfNum : ℕ) {maxSigChannle : ℕ} (h : maxSigChannle < 2 ^ 31)
    (cal : CalibrationSource) (channel : ℕ → ChannelPara) :
    Converts maxRfNum maxSigChannle cal channel ↔
      Convertible maxRfNum maxSigChannle cal channel := by
  unfold Convertible
  by_cases hrange : cal.eFreq < cal.sFreq
  · refine iff_of_true ⟨-1, channel, ?_, .inl ⟨rfl, rfl⟩⟩ (.inl hrange)
    exact if_pos hrange
  rw [or_iff_right hrange]
  have hle := Nat.le_of_not_lt hrange
  have hnone : aktCaliSourceParamConvert maxRfNum maxSigChannle cal channel = none →
      ¬ Converts maxRfNum maxSigChannle cal channel := by
    rintro heq ⟨ret, channel', hsome, -⟩
    rw [heq] at hsome
    cases hsome
  by_cases hstep : cal.step = 0
  · refine iff_of_false (hnone ?_) fun hconv => hconv.1.ne' hstep
    rw [aktCaliSourceParamConvert, if_neg hrange, if_pos hstep]
  have hpos := Nat.pos_of_ne_zero hstep
  by_cases hch : cal.cid < maxRfNum
  swap
  · refine iff_of_false (hnone ?_) fun hconv => hch hconv.2.1
    rw [aktCaliSourceParamConvert, if_neg hrange, if_neg hstep, if_neg hch]
  rw [and_iff_right hpos, and_iff_right hch]
  rcases le_or_gt (maxSigChannle : ℤ) cal.count with hmany | hfew
  · rw [converts_iff_of_many hle hpos hch hmany, and_iff_right hmany]
    exact (or_iff_left fun hconv => absurd hconv.2.1 (not_lt.mpr hmany)).symm
  rw [or_iff_right fun hconv => absurd hconv.1 (not_le.mpr hfew)]
  rcases lt_or_ge cal.count 0 with hneg | hnonneg
  · refine iff_of_false (hnone ?_) fun hconv => absurd hconv.1 (not_le.mpr hneg)
    rw [aktCaliSourceParamConvert, if_neg hrange, if_neg hstep, if_pos hch]
    dsimp only
    rw [if_neg (not_le.mpr hfew), allPoints_of_neg h hneg]
    rfl
  · obtain ⟨n, hn⟩ := Int.eq_ofNat_of_zero_le hnonneg
    rw [and_iff_right hnonneg, and_iff_right hfew,
      converts_iff_of_count hle hpos hch hn (by omega), hn, Int.natCast_ne_zero]

/-- Ten steps, and half a step that is left. -/
theorem converts_iff_tenSteps : Converts 1 40 (.ofRange 0 1000 1210 20) channelInit :=
  (converts_iff 1 (by decide) _ _).mpr (.inr (by decide))

/-- A step of zero, a channel that is not in the array, too many steps for a channel that has not
got its id, and a number of steps that is negative as an `int`. -/
theorem not_converts_zeroStep :
    ¬ Converts 2 40 (.ofRange 0 1000 1200 0) channelInit ∧
      ¬ Converts 2 40 (.ofRange 2 1000 1200 20) channelInit ∧
      ¬ Converts 2 40 (.ofRange 1 1000 1200 1) channelInit ∧
      ¬ Converts 2 40 (.ofRange 0 0 2147483648 1) channelInit := by
  refine ⟨?_, ?_, fun h => ?_, ?_⟩
  · rintro ⟨_, _, hnone, -⟩
    cases hnone
  · rintro ⟨_, _, hnone, -⟩
    cases hnone
  · exact absurd ((converts_iff_of_many (by decide) (by decide) (by decide) (by decide)).mp h)
      (by decide)
  · rintro ⟨_, _, hnone, -⟩
    rw [aktCaliSourceParamConvert, if_neg (by decide), if_neg (by decide),
      if_pos (by decide)] at hnone
    dsimp only at hnone
    rw [if_neg (by decide), allPoints_of_neg (by decide) (by decide)] at hnone
    cases hnone

end Converts

end M57Card.Akt
