import Mathlib.Algebra.Order.Group.Unbundled.Abs
import Mathlib.Algebra.Order.Group.Unbundled.Int
import Mathlib.Data.List.Induction

/-!
# Automatic gain control

`agc_ctrl` (`agc.c`, lines 348–427) keeps the level of a channel at a target by moving two
attenuators one step at a time: the rf attenuator first, and the mgc attenuator at its end. On entry
to the automatic mode the attenuators are set to half of what they have together, and two counters
`slide_up_val` and `slide_down_val` start at 100. A step down moves one from the first counter to
the second and a step up moves it back, also when the attenuators stand at their end; a counter at
zero stops the control in its direction.

The stop never comes early: the counter of a direction is never below the attenuation that is left
in this direction.

## Main definitions

* `AgcCtrlArgs`, `agcSetHalfAttenuationValue`, `agcSetUpStepAttenuationValue`,
  `agcSetDownStepAttenuationValue`, `agcCtrl` : the model.
* `AgcChannel` : a channel whose rf mode is in the table, with ranges from zero.
* `AgcCtrlArgs.InRange` : the attenuators are in their ranges, and the counters cover what is left.
* `Follows` : how a call may move the attenuation.

## Main results

* `inRange_agcEnter`, `inRange_agcSlide` : one call keeps the ranges.
* `front_agcCtrl` : the commands of a call set the attenuators as the controller has them.
* `inRange_and_follows` : the ranges and the moves along a run.
-/

namespace M57Card.Executor

/-! ### The model -/

/-- `struct db_rang_st`; the field `end` is called `stop`. -/
structure DbRang where
  start : Int32
  stop : Int32

/-- An entry of `struct rf_mode_param_st`. -/
structure RfModeParam where
  mode : Int32
  rfAttenuation : DbRang
  mgcAttenuation : DbRang

/-- The fields of `struct rf_para_st` that stay as they are during a run. -/
structure RfPara where
  rfModeCode : UInt8
  rfMode : List RfModeParam

/-- The first entry of the table for the rf mode. -/
def RfPara.entry (p : RfPara) : Option RfModeParam :=
  p.rfMode.find? fun e => e.mode.toInt == (p.rfModeCode.toNat : ℤ)

/-- The settings of the attenuators, in the configuration and at the front end. -/
structure Levels where
  attenuation : Int8
  mgcGainValue : Int8

/-- `EX_RF_ATTENUATION` and `EX_RF_MGC_GAIN`. -/
inductive RfType
  | attenuation
  | mgcGain

/-- `config_write_data` for the attenuators; `executor_set_command` sets the front end likewise. -/
def Levels.write (l : Levels) : RfType → Int8 → Levels
  | .attenuation, v => { l with attenuation := v }
  | .mgcGain, v => { l with mgcGainValue := v }

/-- `config_read_by_cmd` for the attenuators. -/
def Levels.read (l : Levels) : RfType → Int8
  | .attenuation => l.attenuation
  | .mgcGain => l.mgcGainValue

/-- `struct agc_ctrl_args`. -/
structure AgcCtrlArgs where
  method : Int8
  rfMode : Int8
  rfAttenuation : Int8
  mgcAttenuation : Int8
  dstVal : Int32
  slideUpVal : Int32
  slideDownVal : Int32

/-- `agc_init`. -/
def agcInit : AgcCtrlArgs := ⟨-1, -1, -1, -1, -1, -1, -1⟩

/-- `POAL_MGC_MODE`. -/
def POAL_MGC_MODE : UInt8 := 0

/-- `POAL_AGC_MODE`. -/
def POAL_AGC_MODE : UInt8 := 1

/-- What a call of `agc_ctrl` reads: the settings of the channel, the levels in the configuration,
the result of `agc_get_run_timer` and the one of `agc_spm_read_signal_value`. -/
structure AgcCall where
  gainCtrlMethod : UInt8
  agcCtrlTime : UInt32
  agcMidFreqOutLevel : Int8
  conf : Levels
  timer : Int32
  level : Int8

/-- What a call leaves: its return value, the arguments, the levels in the configuration and the
commands for the front end. -/
structure AgcResult where
  ret : ℤ
  args : AgcCtrlArgs
  conf : Levels
  commands : List (RfType × Int8)

/-- `agc_set_half_attenuation_value`: the levels in the configuration and the commands. -/
def agcSetHalfAttenuationValue (p : RfPara) (conf : Levels) : Levels × List (RfType × Int8) :=
  match p.entry with
  | none => (conf, [])
  | some e =>
      let rf := e.rfAttenuation.stop.toInt8
      let half := (rf.toInt + e.mgcAttenuation.stop.toInt8.toInt).tdiv 2
      let mgc := if half > rf.toInt then Int8.ofInt (half - rf.toInt) else 0
      ((conf.write .attenuation rf).write .mgcGain mgc, [(.attenuation, rf), (.mgcGain, mgc)])

/-- `agc_get_max_rf_attenuation_value`. -/
def agcGetMaxRfAttenuationValue (p : RfPara) : ℤ :=
  (p.entry.map fun e => e.rfAttenuation.stop.toInt).getD 0

/-- `agc_get_min_rf_attenuation_value`. -/
def agcGetMinRfAttenuationValue (p : RfPara) : ℤ :=
  (p.entry.map fun e => e.rfAttenuation.start.toInt).getD 0

/-- `agc_get_max_mgc_attenuation_value`. -/
def agcGetMaxMgcAttenuationValue (p : RfPara) : ℤ :=
  (p.entry.map fun e => e.mgcAttenuation.stop.toInt).getD 0

/-- `agc_get_min_mgc_attenuation_value`. -/
def agcGetMinMgcAttenuationValue (p : RfPara) : ℤ :=
  (p.entry.map fun e => e.mgcAttenuation.start.toInt).getD 0

/-- `agc_set_up_step_attenuation_value`. -/
def agcSetUpStepAttenuationValue (p : RfPara) (args : AgcCtrlArgs) :
    AgcCtrlArgs × List (RfType × Int8) :=
  if args.rfAttenuation.toInt < agcGetMaxRfAttenuationValue p then
    ({ args with rfAttenuation := args.rfAttenuation + 1 },
      [(.attenuation, args.rfAttenuation + 1)])
  else if args.mgcAttenuation.toInt < agcGetMaxMgcAttenuationValue p then
    ({ args with mgcAttenuation := args.mgcAttenuation + 1 }, [(.mgcGain, args.mgcAttenuation + 1)])
  else (args, [])

/-- `agc_set_down_step_attenuation_value`. -/
def agcSetDownStepAttenuationValue (p : RfPara) (args : AgcCtrlArgs) :
    AgcCtrlArgs × List (RfType × Int8) :=
  if args.rfAttenuation.toInt > agcGetMinRfAttenuationValue p then
    ({ args with rfAttenuation := args.rfAttenuation - 1 },
      [(.attenuation, args.rfAttenuation - 1)])
  else if args.mgcAttenuation.toInt > agcGetMinMgcAttenuationValue p then
    ({ args with mgcAttenuation := args.mgcAttenuation - 1 }, [(.mgcGain, args.mgcAttenuation - 1)])
  else (args, [])

/-- The counters at a step up: `slide_down_val--` and `slide_up_val++`. -/
def AgcCtrlArgs.countUp (args : AgcCtrlArgs) : AgcCtrlArgs :=
  { args with slideDownVal := args.slideDownVal - 1, slideUpVal := args.slideUpVal + 1 }

/-- The counters at a step down: `slide_up_val--` and `slide_down_val++`. -/
def AgcCtrlArgs.countDown (args : AgcCtrlArgs) : AgcCtrlArgs :=
  { args with slideUpVal := args.slideUpVal - 1, slideDownVal := args.slideDownVal + 1 }

/-- `_AGC_CTRL_PRECISION_`. -/
def AGC_CTRL_PRECISION : ℤ := 1

/-- The rest of `agc_ctrl` from the test of the mode on. -/
def agcSlide (p : RfPara) (c : AgcCall) (args : AgcCtrlArgs) (conf : Levels)
    (commands : List (RfType × Int8)) : AgcResult :=
  if c.gainCtrlMethod ≠ POAL_AGC_MODE then ⟨-1, args, conf, commands⟩
  else if c.timer.toInt < c.agcCtrlTime.toUInt16.toNat then ⟨-1, args, conf, commands⟩
  else if c.level.toInt < args.dstVal.toInt - AGC_CTRL_PRECISION then
    if args.slideUpVal ≤ 0 then ⟨-1, args, conf, commands⟩
    else
      let step := agcSetDownStepAttenuationValue p args.countDown
      ⟨0, step.1, conf, commands ++ step.2⟩
  else if c.level.toInt > args.dstVal.toInt + AGC_CTRL_PRECISION then
    if args.slideDownVal ≤ 0 then ⟨-1, args, conf, commands⟩
    else
      let step := agcSetUpStepAttenuationValue p args.countUp
      ⟨0, step.1, conf, commands ++ step.2⟩
  else ⟨0, args, conf, commands⟩

/-- The settings of the channel are not those of the last call. -/
def AgcCtrlArgs.Changed (p : RfPara) (c : AgcCall) (args : AgcCtrlArgs) : Prop :=
  args.method.toInt ≠ c.gainCtrlMethod.toNat ∨ args.rfMode.toInt ≠ p.rfModeCode.toNat ∨
    args.dstVal.toInt ≠ c.agcMidFreqOutLevel.toInt

instance (p : RfPara) (c : AgcCall) (args : AgcCtrlArgs) : Decidable (args.Changed p c) :=
  inferInstanceAs (Decidable (_ ∨ _ ∨ _))

/-- The settings of the channel are kept for the next call. -/
def AgcCtrlArgs.setMode (p : RfPara) (c : AgcCall) (args : AgcCtrlArgs) : AgcCtrlArgs :=
  { args with
    method := c.gainCtrlMethod.toInt8
    dstVal := c.agcMidFreqOutLevel.toInt32
    rfMode := p.rfModeCode.toInt8 }

/-- The entry to the automatic mode: the counters start at 100, and the attenuators are read back
from the configuration. -/
def agcEnter (c : AgcCall) (args : AgcCtrlArgs) (conf : Levels) : AgcCtrlArgs :=
  { args with
    dstVal := c.agcMidFreqOutLevel.toInt32
    slideDownVal := 100
    slideUpVal := 100
    rfAttenuation := conf.read .attenuation
    mgcAttenuation := conf.read .mgcGain }

/-- `agc_ctrl`. -/
def agcCtrl (p : RfPara) (c : AgcCall) (args : AgcCtrlArgs) : AgcResult :=
  if args.Changed p c then
    if c.gainCtrlMethod = POAL_MGC_MODE then ⟨-1, args.setMode p c, c.conf, []⟩
    else if c.gainCtrlMethod = POAL_AGC_MODE then
      let half := agcSetHalfAttenuationValue p c.conf
      agcSlide p c (agcEnter c (args.setMode p c) half.1) half.1 half.2
    else agcSlide p c (args.setMode p c) c.conf []
  else agcSlide p c args c.conf []

/-- The arguments after the calls `cs`, from `agc_init` on. -/
def agcRun (p : RfPara) (cs : List AgcCall) : AgcCtrlArgs :=
  cs.foldl (fun args c => (agcCtrl p c args).args) agcInit

/-! ### Channels and ranges -/

/-- A channel whose rf mode is in the table, with attenuation ranges `[0, R]` and `[0, M]` and
`R + M ≤ 100`. -/
structure AgcChannel extends RfPara where
  ranges : RfModeParam
  entry_eq : toRfPara.entry = some ranges
  rf_start : ranges.rfAttenuation.start = 0
  mgc_start : ranges.mgcAttenuation.start = 0
  rf_stop_nonneg : 0 ≤ ranges.rfAttenuation.stop.toInt
  mgc_stop_nonneg : 0 ≤ ranges.mgcAttenuation.stop.toInt
  stop_le : ranges.rfAttenuation.stop.toInt + ranges.mgcAttenuation.stop.toInt ≤ 100

namespace AgcChannel

variable (ch : AgcChannel)

/-- The end of the range of the rf attenuator. -/
def R : ℤ := ch.ranges.rfAttenuation.stop.toInt

/-- The end of the range of the mgc attenuator. -/
def M : ℤ := ch.ranges.mgcAttenuation.stop.toInt

theorem R_nonneg : 0 ≤ ch.R := ch.rf_stop_nonneg

theorem M_nonneg : 0 ≤ ch.M := ch.mgc_stop_nonneg

theorem R_add_M_le : ch.R + ch.M ≤ 100 := ch.stop_le

@[simp] theorem max_rf : agcGetMaxRfAttenuationValue ch.toRfPara = ch.R := by
  simp [agcGetMaxRfAttenuationValue, ch.entry_eq, R]

@[simp] theorem min_rf : agcGetMinRfAttenuationValue ch.toRfPara = 0 := by
  simp [agcGetMinRfAttenuationValue, ch.entry_eq, ch.rf_start]

@[simp] theorem max_mgc : agcGetMaxMgcAttenuationValue ch.toRfPara = ch.M := by
  simp [agcGetMaxMgcAttenuationValue, ch.entry_eq, M]

@[simp] theorem min_mgc : agcGetMinMgcAttenuationValue ch.toRfPara = 0 := by
  simp [agcGetMinMgcAttenuationValue, ch.entry_eq, ch.mgc_start]

end AgcChannel

namespace AgcCtrlArgs

/-- The attenuation of both attenuators. -/
def total (args : AgcCtrlArgs) : ℤ := args.rfAttenuation.toInt + args.mgcAttenuation.toInt

/-- The attenuators as the controller has them. -/
def levels (args : AgcCtrlArgs) : Levels := ⟨args.rfAttenuation, args.mgcAttenuation⟩

/-- The attenuators are in their ranges. -/
structure InBounds (ch : AgcChannel) (args : AgcCtrlArgs) : Prop where
  rf_nonneg : 0 ≤ args.rfAttenuation.toInt
  rf_le : args.rfAttenuation.toInt ≤ ch.R
  mgc_nonneg : 0 ≤ args.mgcAttenuation.toInt
  mgc_le : args.mgcAttenuation.toInt ≤ ch.M

/-- The attenuators are in their ranges, and the counter of each direction covers the attenuation
that is left in it. -/
structure InRange (ch : AgcChannel) (args : AgcCtrlArgs) : Prop extends InBounds ch args where
  slides : args.slideUpVal.toInt + args.slideDownVal.toInt = 200
  up : args.total ≤ args.slideUpVal.toInt
  down : ch.R + ch.M - args.total ≤ args.slideDownVal.toInt

end AgcCtrlArgs

/-- The call enters the automatic mode anew. -/
def EntersAgc (p : RfPara) (c : AgcCall) (args : AgcCtrlArgs) : Prop :=
  args.Changed p c ∧ c.gainCtrlMethod = POAL_AGC_MODE

/-- The call controls the level: the mode is automatic, and the time of a step is over. -/
def AgcCall.Due (c : AgcCall) : Prop :=
  c.gainCtrlMethod = POAL_AGC_MODE ∧ (c.agcCtrlTime.toUInt16.toNat : ℤ) ≤ c.timer.toInt

/-- How a call moves the attenuation from `args` to `args'`: by at most one and only towards the
target, and by one when it is due, off the target, and there is attenuation left. -/
structure Follows (ch : AgcChannel) (c : AgcCall) (args args' : AgcCtrlArgs) : Prop where
  abs_le : |args'.total - args.total| ≤ 1
  below : args'.total < args.total → c.level.toInt < c.agcMidFreqOutLevel.toInt
  above : args.total < args'.total → c.agcMidFreqOutLevel.toInt < c.level.toInt
  down : c.Due → c.level.toInt < c.agcMidFreqOutLevel.toInt - 1 → 0 < args.total →
    args'.total = args.total - 1
  up : c.Due → c.agcMidFreqOutLevel.toInt + 1 < c.level.toInt → args.total < ch.R + ch.M →
    args'.total = args.total + 1

/-! ### Steps -/

theorem toInt_add_one {x : Int8} (h : x.toInt < 127) : (x + 1).toInt = x.toInt + 1 := by
  have hle := x.le_toInt
  rw [Int8.toInt_add, Int8.toInt_one]
  exact Int.bmod_eq_of_le (by omega) (by omega)

theorem toInt_sub_one {x : Int8} (h : 0 < x.toInt) : (x - 1).toInt = x.toInt - 1 := by
  have hlt := x.toInt_lt
  rw [Int8.toInt_sub, Int8.toInt_one]
  exact Int.bmod_eq_of_le (by omega) (by omega)

theorem int32_toInt_add_one {x : Int32} (h0 : 0 ≤ x.toInt) (h : x.toInt ≤ 200) :
    (x + 1).toInt = x.toInt + 1 := by
  rw [Int32.toInt_add, Int32.toInt_one]
  exact Int.bmod_eq_of_le (by omega) (by omega)

theorem int32_toInt_sub_one {x : Int32} (h0 : 0 ≤ x.toInt) (h : x.toInt ≤ 200) :
    (x - 1).toInt = x.toInt - 1 := by
  rw [Int32.toInt_sub, Int32.toInt_one]
  exact Int.bmod_eq_of_le (by omega) (by omega)

namespace AgcCtrlArgs

variable {ch : AgcChannel} {args : AgcCtrlArgs}

theorem InBounds.total_nonneg (h : args.InBounds ch) : 0 ≤ args.total :=
  add_nonneg h.rf_nonneg h.mgc_nonneg

theorem InBounds.total_le (h : args.InBounds ch) : args.total ≤ ch.R + ch.M :=
  add_le_add h.rf_le h.mgc_le

/-- A step up adds one to the attenuation, as long as there is some left. -/
theorem InBounds.step_up (h : args.InBounds ch) :
    (agcSetUpStepAttenuationValue ch.toRfPara args).1.InBounds ch ∧
      (agcSetUpStepAttenuationValue ch.toRfPara args).1.total =
        min (args.total + 1) (ch.R + ch.M) := by
  obtain ⟨hrf0, hrf, hmgc0, hmgc⟩ := h
  have hR := ch.R_nonneg
  have hM := ch.M_nonneg
  have hsum := ch.R_add_M_le
  unfold agcSetUpStepAttenuationValue total
  rw [ch.max_rf, ch.max_mgc]
  split_ifs with hltR hltM
  · have hstep := toInt_add_one (x := args.rfAttenuation) (by omega)
    exact ⟨⟨by simp only [hstep]; omega, by simp only [hstep]; omega, hmgc0, hmgc⟩,
      by simp only [hstep]; omega⟩
  · have hstep := toInt_add_one (x := args.mgcAttenuation) (by omega)
    exact ⟨⟨hrf0, hrf, by simp only [hstep]; omega, by simp only [hstep]; omega⟩,
      by simp only [hstep]; omega⟩
  · exact ⟨⟨hrf0, hrf, hmgc0, hmgc⟩, by simp only; omega⟩

/-- A step down takes one from the attenuation, as long as there is some. -/
theorem InBounds.step_down (h : args.InBounds ch) :
    (agcSetDownStepAttenuationValue ch.toRfPara args).1.InBounds ch ∧
      (agcSetDownStepAttenuationValue ch.toRfPara args).1.total = max (args.total - 1) 0 := by
  obtain ⟨hrf0, hrf, hmgc0, hmgc⟩ := h
  unfold agcSetDownStepAttenuationValue total
  rw [ch.min_rf, ch.min_mgc]
  split_ifs with hpos hposM
  · have hstep := toInt_sub_one hpos
    exact ⟨⟨by simp only [hstep]; omega, by simp only [hstep]; omega, hmgc0, hmgc⟩,
      by simp only [hstep]; omega⟩
  · have hstep := toInt_sub_one hposM
    exact ⟨⟨hrf0, hrf, by simp only [hstep]; omega, by simp only [hstep]; omega⟩,
      by simp only [hstep]; omega⟩
  · exact ⟨⟨hrf0, hrf, hmgc0, hmgc⟩, by simp only; omega⟩

@[simp] theorem slideUpVal_step_up (p : RfPara) (args : AgcCtrlArgs) :
    (agcSetUpStepAttenuationValue p args).1.slideUpVal = args.slideUpVal := by
  unfold agcSetUpStepAttenuationValue
  split_ifs <;> rfl

@[simp] theorem slideDownVal_step_up (p : RfPara) (args : AgcCtrlArgs) :
    (agcSetUpStepAttenuationValue p args).1.slideDownVal = args.slideDownVal := by
  unfold agcSetUpStepAttenuationValue
  split_ifs <;> rfl

@[simp] theorem slideUpVal_step_down (p : RfPara) (args : AgcCtrlArgs) :
    (agcSetDownStepAttenuationValue p args).1.slideUpVal = args.slideUpVal := by
  unfold agcSetDownStepAttenuationValue
  split_ifs <;> rfl

@[simp] theorem slideDownVal_step_down (p : RfPara) (args : AgcCtrlArgs) :
    (agcSetDownStepAttenuationValue p args).1.slideDownVal = args.slideDownVal := by
  unfold agcSetDownStepAttenuationValue
  split_ifs <;> rfl

@[simp] theorem total_countUp : args.countUp.total = args.total := rfl

@[simp] theorem total_countDown : args.countDown.total = args.total := rfl

theorem InBounds.countUp (h : args.InBounds ch) : args.countUp.InBounds ch :=
  ⟨h.rf_nonneg, h.rf_le, h.mgc_nonneg, h.mgc_le⟩

theorem InBounds.countDown (h : args.InBounds ch) : args.countDown.InBounds ch :=
  ⟨h.rf_nonneg, h.rf_le, h.mgc_nonneg, h.mgc_le⟩

/-- A step up with the counters moved: the attenuation that is left above goes down by one, or it
was zero and stays so. -/
theorem InRange.slide_up (h : args.InRange ch) (hpos : 0 < args.slideDownVal.toInt) :
    (agcSetUpStepAttenuationValue ch.toRfPara args.countUp).1.InRange ch := by
  obtain ⟨hbounds, hslides, hup, hdown⟩ := h
  have h0 := hbounds.total_nonneg
  have hle := hbounds.total_le
  obtain ⟨hbounds', htotal⟩ := hbounds.countUp.step_up
  rw [total_countUp] at htotal
  have hplus : args.countUp.slideUpVal.toInt = args.slideUpVal.toInt + 1 :=
    int32_toInt_add_one (by omega) (by omega)
  have hminus : args.countUp.slideDownVal.toInt = args.slideDownVal.toInt - 1 :=
    int32_toInt_sub_one (by omega) (by omega)
  refine ⟨hbounds', ?_, ?_, ?_⟩
  · rw [slideUpVal_step_up, slideDownVal_step_up]
    omega
  · rw [slideUpVal_step_up]
    omega
  · rw [slideDownVal_step_up]
    omega

/-- A step down with the counters moved, likewise. -/
theorem InRange.slide_down (h : args.InRange ch) (hpos : 0 < args.slideUpVal.toInt) :
    (agcSetDownStepAttenuationValue ch.toRfPara args.countDown).1.InRange ch := by
  obtain ⟨hbounds, hslides, hup, hdown⟩ := h
  have h0 := hbounds.total_nonneg
  have hle := hbounds.total_le
  obtain ⟨hbounds', htotal⟩ := hbounds.countDown.step_down
  rw [total_countDown] at htotal
  have hplus : args.countDown.slideDownVal.toInt = args.slideDownVal.toInt + 1 :=
    int32_toInt_add_one (by omega) (by omega)
  have hminus : args.countDown.slideUpVal.toInt = args.slideUpVal.toInt - 1 :=
    int32_toInt_sub_one (by omega) (by omega)
  refine ⟨hbounds', ?_, ?_, ?_⟩
  · rw [slideUpVal_step_down, slideDownVal_step_down]
    omega
  · rw [slideUpVal_step_down]
    omega
  · rw [slideDownVal_step_down]
    omega

end AgcCtrlArgs

/-! ### Calls -/

section Calls

variable {ch : AgcChannel} {c : AgcCall} {args args' : AgcCtrlArgs}

/-- A call that leaves the attenuation as it is follows the target when there is none left. -/
theorem Follows.of_total_eq (heq : args'.total = args.total)
    (hlow : c.Due → c.level.toInt < c.agcMidFreqOutLevel.toInt - 1 → args.total ≤ 0)
    (hhigh : c.Due → c.agcMidFreqOutLevel.toInt + 1 < c.level.toInt →
      ch.R + ch.M ≤ args.total) : Follows ch c args args' where
  abs_le := by simp [heq]
  below h := by omega
  above h := by omega
  down hdue h hpos := by
    have hle := hlow hdue h
    omega
  up hdue h hlt := by
    have hle := hhigh hdue h
    omega

/-- A step down below the target follows it. -/
theorem Follows.of_down (h0 : 0 ≤ args.total)
    (hlow : c.level.toInt < c.agcMidFreqOutLevel.toInt - 1)
    (heq : args'.total = max (args.total - 1) 0) : Follows ch c args args' where
  abs_le := by rw [abs_le']; omega
  below h := by omega
  above h := by omega
  down _ _ hpos := by omega
  up _ h := by omega

/-- A step up above the target follows it. -/
theorem Follows.of_up (hle : args.total ≤ ch.R + ch.M)
    (hhigh : c.agcMidFreqOutLevel.toInt + 1 < c.level.toInt)
    (heq : args'.total = min (args.total + 1) (ch.R + ch.M)) : Follows ch c args args' where
  abs_le := by rw [abs_le']; omega
  below h := by omega
  above h := by omega
  down _ h := by omega
  up _ _ hlt := by omega

theorem inRange_agcSlide (h : args.InRange ch) (conf : Levels) (commands : List (RfType × Int8)) :
    (agcSlide ch.toRfPara c args conf commands).args.InRange ch := by
  unfold agcSlide
  split_ifs with hmode htimer hlow htop hhigh hbottom
  · exact h
  · exact h
  · exact h
  · rw [Int32.not_le, Int32.lt_iff_toInt_lt] at htop
    exact h.slide_down htop
  · exact h
  · rw [Int32.not_le, Int32.lt_iff_toInt_lt] at hbottom
    exact h.slide_up hbottom
  · exact h

/-- A counter at zero stops a step only where no attenuation is left. -/
theorem follows_agcSlide (h : args.InRange ch)
    (hdst : c.gainCtrlMethod = POAL_AGC_MODE →
      args.dstVal.toInt = c.agcMidFreqOutLevel.toInt)
    (conf : Levels) (commands : List (RfType × Int8)) :
    Follows ch c args (agcSlide ch.toRfPara c args conf commands).args := by
  unfold agcSlide
  simp only [AGC_CTRL_PRECISION]
  split_ifs with hmode htimer hlow htop hhigh hbottom
  · exact .of_total_eq rfl (fun hdue => absurd hdue.1 hmode) fun hdue => absurd hdue.1 hmode
  · exact .of_total_eq rfl (fun hdue => absurd htimer (not_lt.2 hdue.2))
      fun hdue => absurd htimer (not_lt.2 hdue.2)
  · -- the counter is at zero, and so is the attenuation
    have hmid := hdst (not_not.1 hmode)
    have hcover := h.up
    rw [Int32.le_iff_toInt_le, Int32.toInt_zero] at htop
    exact .of_total_eq rfl (fun _ _ => by omega) fun _ _ => by omega
  · have hmid := hdst (not_not.1 hmode)
    exact .of_down h.total_nonneg (by omega) h.countDown.step_down.2
  · have hmid := hdst (not_not.1 hmode)
    have hcover := h.down
    rw [Int32.le_iff_toInt_le, Int32.toInt_zero] at hbottom
    exact .of_total_eq rfl (fun _ _ => by omega) fun _ _ => by omega
  · have hmid := hdst (not_not.1 hmode)
    exact .of_up h.total_le (by omega) h.countUp.step_up.2
  · have hmid := hdst (not_not.1 hmode)
    exact .of_total_eq rfl (fun _ _ => by omega) fun _ _ => by omega

/-- The attenuators on entry: the rf attenuator at its end, and the mgc attenuator where it is half
of both ranges away from zero. -/
theorem levels_half (ch : AgcChannel) (conf : Levels) :
    (agcSetHalfAttenuationValue ch.toRfPara conf).1.attenuation.toInt = ch.R ∧
      (agcSetHalfAttenuationValue ch.toRfPara conf).1.mgcGainValue.toInt =
        max ((ch.R + ch.M) / 2 - ch.R) 0 := by
  have hR := ch.R_nonneg
  have hM := ch.M_nonneg
  have hsum := ch.R_add_M_le
  have hrf : ch.ranges.rfAttenuation.stop.toInt8.toInt = ch.R := by
    rw [Int32.toInt_toInt8]
    exact Int.bmod_eq_of_le (by change _ ≤ ch.R; omega) (by change ch.R < _; omega)
  have hmgc : ch.ranges.mgcAttenuation.stop.toInt8.toInt = ch.M := by
    rw [Int32.toInt_toInt8]
    exact Int.bmod_eq_of_le (by change _ ≤ ch.M; omega) (by change ch.M < _; omega)
  unfold agcSetHalfAttenuationValue
  simp only [ch.entry_eq, Levels.write, hrf, hmgc, true_and]
  rw [Int.tdiv_eq_ediv_of_nonneg (by omega)]
  split_ifs with hgt
  · rw [Int8.toInt_ofInt_of_le (by omega) (by omega)]
    omega
  · rw [Int8.toInt_zero]
    omega

theorem inRange_agcEnter (ch : AgcChannel) (c : AgcCall) (args : AgcCtrlArgs) (conf : Levels) :
    (agcEnter c args (agcSetHalfAttenuationValue ch.toRfPara conf).1).InRange ch := by
  have hR := ch.R_nonneg
  have hM := ch.M_nonneg
  have hsum := ch.R_add_M_le
  generalize hargs : agcEnter c args (agcSetHalfAttenuationValue ch.toRfPara conf).1 = entered
  have hrf : entered.rfAttenuation.toInt = ch.R := by
    rw [← hargs]
    exact (levels_half ch conf).1
  have hmgc : entered.mgcAttenuation.toInt = max ((ch.R + ch.M) / 2 - ch.R) 0 := by
    rw [← hargs]
    exact (levels_half ch conf).2
  have hup : entered.slideUpVal.toInt = 100 := by
    rw [← hargs]
    exact (by decide : (100 : Int32).toInt = 100)
  have hdown : entered.slideDownVal.toInt = 100 := by
    rw [← hargs]
    exact (by decide : (100 : Int32).toInt = 100)
  have htotal : entered.total = ch.R + max ((ch.R + ch.M) / 2 - ch.R) 0 := by
    rw [AgcCtrlArgs.total, hrf, hmgc]
  exact
    { rf_nonneg := by omega
      rf_le := by omega
      mgc_nonneg := by omega
      mgc_le := by omega
      slides := by omega
      up := by omega
      down := by omega }

theorem inRange_setMode (h : args.InRange ch) (p : RfPara) (c : AgcCall) :
    (args.setMode p c).InRange ch :=
  ⟨⟨h.rf_nonneg, h.rf_le, h.mgc_nonneg, h.mgc_le⟩, h.slides, h.up, h.down⟩

theorem inRange_agcCtrl_of_enters (h : EntersAgc ch.toRfPara c args) :
    (agcCtrl ch.toRfPara c args).args.InRange ch := by
  obtain ⟨hchanged, hmode⟩ := h
  have hne : c.gainCtrlMethod ≠ POAL_MGC_MODE := by
    rw [hmode]
    decide
  rw [agcCtrl, if_pos hchanged, if_neg hne, if_pos hmode]
  exact inRange_agcSlide (inRange_agcEnter ch c _ _) _ _

/-- One call keeps the ranges. -/
theorem inRange_agcCtrl (h : args.InRange ch) (c : AgcCall) :
    (agcCtrl ch.toRfPara c args).args.InRange ch := by
  by_cases henters : EntersAgc ch.toRfPara c args
  · exact inRange_agcCtrl_of_enters henters
  · unfold agcCtrl
    split_ifs with hchanged hmgc hagc
    · exact inRange_setMode h _ c
    · exact absurd ⟨hchanged, hagc⟩ henters
    · exact inRange_agcSlide (inRange_setMode h _ c) _ _
    · exact inRange_agcSlide h _ _

theorem Follows.of_setMode {p : RfPara} (h : Follows ch c (args.setMode p c) args') :
    Follows ch c args args' :=
  ⟨h.abs_le, h.below, h.above, h.down, h.up⟩

/-- A call that does not enter the automatic mode follows the target. -/
theorem follows_agcCtrl (h : args.InRange ch) (henters : ¬ EntersAgc ch.toRfPara c args) :
    Follows ch c args (agcCtrl ch.toRfPara c args).args := by
  unfold agcCtrl
  split_ifs with hchanged hmgc hagc
  · have hnot : ¬ c.Due := fun hdue => henters ⟨hchanged, hdue.1⟩
    exact .of_total_eq rfl (fun hdue => absurd hdue hnot) fun hdue => absurd hdue hnot
  · exact absurd ⟨hchanged, hagc⟩ henters
  · exact .of_setMode
      (follows_agcSlide (inRange_setMode h _ c) (fun hmode => absurd hmode hagc) _ _)
  · unfold AgcCtrlArgs.Changed at hchanged
    exact follows_agcSlide h (fun _ => by omega) _ _

end Calls

/-! ### Runs -/

theorem agcRun_concat (p : RfPara) (cs : List AgcCall) (c : AgcCall) :
    agcRun p (cs ++ [c]) = (agcCtrl p c (agcRun p cs)).args := by
  rw [agcRun, List.foldl_append]
  rfl

/-- From the entry to the automatic mode on, the attenuators are in their ranges and the counters
cover what is left. -/
theorem inRange_agcRun {ch : AgcChannel} {pre : List AgcCall} {c : AgcCall}
    (h : EntersAgc ch.toRfPara c (agcRun ch.toRfPara pre)) (post : List AgcCall) :
    (agcRun ch.toRfPara (pre ++ c :: post)).InRange ch := by
  induction post using List.reverseRecOn with
  | nil =>
    rw [agcRun_concat]
    exact inRange_agcCtrl_of_enters h
  | append_singleton post d ih =>
    rw [← List.cons_append, ← List.append_assoc, agcRun_concat]
    exact inRange_agcCtrl ih d

/-- After the automatic mode is entered, the attenuators stay in their ranges, the counters sum up
to 200, and every call that does not enter the mode anew follows the target: it moves the
attenuation by at most one and only towards the target, and by one whenever it is due, the level is
off the target and there is attenuation left. -/
theorem inRange_and_follows (ch : AgcChannel) (pre post : List AgcCall) (c : AgcCall)
    (h : EntersAgc ch.toRfPara c (agcRun ch.toRfPara pre)) :
    (agcRun ch.toRfPara (pre ++ c :: post)).InRange ch ∧
      ∀ d, ¬ EntersAgc ch.toRfPara d (agcRun ch.toRfPara (pre ++ c :: post)) →
        Follows ch d (agcRun ch.toRfPara (pre ++ c :: post))
          (agcRun ch.toRfPara (pre ++ c :: post ++ [d])) := by
  have hrange := inRange_agcRun h post
  refine ⟨hrange, ?_⟩
  intro d hd
  rw [agcRun_concat]
  exact follows_agcCtrl hrange hd

/-- A channel with 30 dB at each attenuator, for the normal rf mode. -/
def evenChannel : AgcChannel where
  rfModeCode := 1
  rfMode := [⟨1, ⟨0, 30⟩, ⟨0, 30⟩⟩]
  ranges := ⟨1, ⟨0, 30⟩, ⟨0, 30⟩⟩
  entry_eq := rfl
  rf_start := rfl
  mgc_start := rfl
  rf_stop_nonneg := by decide
  mgc_stop_nonneg := by decide
  stop_le := by decide

/-- A call in the automatic mode with the target at `-10` and a level of `-40`. -/
def lowCall : AgcCall := ⟨1, 100, -10, ⟨0, 0⟩, 500, -40⟩

theorem inRange_and_follows_lowCall :
    (agcRun evenChannel.toRfPara ([] ++ lowCall :: [lowCall])).InRange evenChannel ∧
      ∀ d, ¬ EntersAgc evenChannel.toRfPara d
          (agcRun evenChannel.toRfPara ([] ++ lowCall :: [lowCall])) →
        Follows evenChannel d (agcRun evenChannel.toRfPara ([] ++ lowCall :: [lowCall]))
          (agcRun evenChannel.toRfPara ([] ++ lowCall :: [lowCall] ++ [d])) :=
  inRange_and_follows evenChannel [] [lowCall] lowCall ⟨.inl (by decide), rfl⟩

/-! ### The front end -/

/-- The front end after some commands. -/
def Levels.run (front : Levels) (commands : List (RfType × Int8)) : Levels :=
  commands.foldl (fun l x => l.write x.1 x.2) front

theorem Levels.run_append (front : Levels) (xs ys : List (RfType × Int8)) :
    front.run (xs ++ ys) = (front.run xs).run ys := List.foldl_append

theorem run_step_up (p : RfPara) (args : AgcCtrlArgs) :
    args.levels.run (agcSetUpStepAttenuationValue p args).2 =
      (agcSetUpStepAttenuationValue p args).1.levels := by
  unfold agcSetUpStepAttenuationValue
  split_ifs <;> rfl

theorem run_step_down (p : RfPara) (args : AgcCtrlArgs) :
    args.levels.run (agcSetDownStepAttenuationValue p args).2 =
      (agcSetDownStepAttenuationValue p args).1.levels := by
  unfold agcSetDownStepAttenuationValue
  split_ifs <;> rfl

theorem front_agcSlide {p : RfPara} {c : AgcCall} {args : AgcCtrlArgs} {front : Levels}
    {commands : List (RfType × Int8)} (conf : Levels) (h : front.run commands = args.levels) :
    front.run (agcSlide p c args conf commands).commands =
      (agcSlide p c args conf commands).args.levels := by
  unfold agcSlide
  split_ifs with hmode htimer hlow htop hhigh hbottom
  · exact h
  · exact h
  · exact h
  · rw [Levels.run_append, h]
    exact run_step_down p args.countDown
  · exact h
  · rw [Levels.run_append, h]
    exact run_step_up p args.countUp
  · exact h

/-- The commands of a call keep the front end as the controller has it; on entry to the automatic
mode they set it so, wherever it stood. -/
theorem front_agcCtrl (ch : AgcChannel) (c : AgcCall) {args : AgcCtrlArgs} {front : Levels}
    (h : ¬ EntersAgc ch.toRfPara c args → front = args.levels) :
    front.run (agcCtrl ch.toRfPara c args).commands =
      (agcCtrl ch.toRfPara c args).args.levels := by
  unfold agcCtrl
  split_ifs with hchanged hmgc hagc
  · have hnot : ¬ EntersAgc ch.toRfPara c args := by
      rintro ⟨-, hmode⟩
      rw [hmgc] at hmode
      exact absurd hmode (by decide)
    exact h hnot
  · refine front_agcSlide _ ?_
    simp only [agcSetHalfAttenuationValue, ch.entry_eq]
    rfl
  · exact front_agcSlide _ (h fun henters => hagc henters.2)
  · exact front_agcSlide _ (h fun henters => hchanged henters.1)

end M57Card.Executor
