import M57Card.Executor.FragmentScan
import M57Card.Lib.Runs

/-!
# Collecting the samples of a sweep

`specturm_write_oneframe_iq_data_to_buffer` (`spm_analysis.c`, lines 434–468) collects the samples
of one sweep of `executor_fragment_scan` in the memory pool `pool.iq`, and notifies the analysis
thread at the last step; the thread releases the pool when it is done. The collector starts at step
`0` when the pool is released, and takes step `total_fft - 1` as the last one. `total_fft` is the
number of steps of the complete sweep before, whatever its segment was, and nothing is taken back
when a sweep is cut short.

A block of the pool is what one step writes; the pool is the list of its blocks. The samples are
read by the chip, so that the sweeps are those of the chip.

## Main definitions

* `Collector`, `specturmWriteOneframeIqDataToBuffer`, `spmAnalysisStart` : the model.
* `AnalysisSweep`, `AnalysisSweep.run` : a sweep, and what it leaves.
* `AnalysisSweep.Right` : the analysis gets exactly the blocks of the sweep, and gets them.
* `AnalysisSweep.Undisturbed` : the sweeps that are collected as a whole or not at all.

## Main results

* `fragmentLoop_counts`, `fragmentLoop_reset` : the numbers of steps of a sweep.
* `right_of_undisturbed` : undisturbed sweeps are right.
-/

namespace M57Card.Executor

/-! ### The collector -/

/-- `SPECTRUM_MAX_SCAN_COUNT`, the number of blocks of the pool. -/
def SPECTRUM_MAX_SCAN_COUNT : ℕ := 50

/-- The static variables of the collector, `pool.iq_ready` and the blocks of `pool.iq`. -/
structure Collector (β : Type*) where
  isSysnWrite : Bool
  oldFftSn : ℤ
  iqReady : Bool
  iq : List β
  deriving DecidableEq

variable {β : Type*}

/-- The collector at the start. -/
def Collector.init : Collector β := ⟨false, -1, false, []⟩

/-- `memory_pool_write_value` to a block of `memory_pool_alloc`, when there is one. -/
def Collector.write (c : Collector β) (data : β) : Collector β :=
  if c.iq.length < SPECTRUM_MAX_SCAN_COUNT then { c with iq := c.iq ++ [data] } else c

/-- The end of a round of `specturm_analysis_deal_thread`; the thread runs when it is notified. -/
def Collector.release (c : Collector β) : Collector β :=
  if c.iqReady then { c with iq := [], iqReady := false } else c

/-- `specturm_write_oneframe_iq_data_to_buffer`; `old_fft_sn` is compared as a `uint32_t`. -/
def specturmWriteOneframeIqDataToBuffer (p : SpmRunParm) (data : β) (c : Collector β) :
    ℤ × Collector β :=
  if p.totalFft > SPECTRUM_MAX_SCAN_COUNT then (-1, c)
  else
    let c :=
      if p.fftSn = 0 ∧ c.iqReady = false ∧ c.oldFftSn % 2 ^ 32 ≠ p.fftSn then
        { c with isSysnWrite := true }
      else c
    if c.isSysnWrite = true ∧ c.oldFftSn % 2 ^ 32 ≠ p.fftSn then
      let c := { c.write data with oldFftSn := Int.bmod p.fftSn (2 ^ 32) }
      if (p.fftSn : ℤ) = ((p.totalFft : ℤ) - 1) % 2 ^ 32 then
        (0, { c with iqReady := true, isSysnWrite := false, oldFftSn := -1 })
      else (-1, c)
    else (-1, c)

/-- What happens in a step: the analysis thread may release the pool before it, the analysis may be
enabled, and the step has read its samples. -/
structure StepInput (β : Type*) where
  release : Bool
  enabled : Bool
  data : β

/-- `spm_analysis_start` in a step, with `0` when the analysis thread is notified. -/
def spmAnalysisStart (x : StepInput β) (p : SpmRunParm) (c : Collector β) : ℤ × Collector β :=
  let c := if x.release then c.release else c
  if x.enabled then specturmWriteOneframeIqDataToBuffer p x.data c else (-1, c)

/-! ### Sweeps -/

/-- A sweep over a segment with at most as many steps as the pool has blocks. -/
structure AnalysisSweep (β : Type*) where
  fregment : Fregment
  reset : ℕ → Bool
  input : ℕ → StepInput β
  fits : (executorFragmentScan .chip fregment (fun _ => false) SPECTRUM_MAX_SCAN_COUNT).isSome

namespace AnalysisSweep

/-- The number of steps of the sweep. -/
def count (w : AnalysisSweep β) : ℕ :=
  ((executorFragmentScan .chip w.fregment (fun _ => false) SPECTRUM_MAX_SCAN_COUNT).get
    w.fits).steps.length

/-- The samples of all steps. -/
def blocks (w : AnalysisSweep β) : List β := (List.range w.count).map fun i => (w.input i).data

/-- `executor_fragment_scan` with the number `tFft` in the static variable `t_fft`. -/
def scan (w : AnalysisSweep β) (tFft : ℕ) : Option ScanResult :=
  executorFragmentScan .chip { w.fregment with totalFft := tFft } w.reset SPECTRUM_MAX_SCAN_COUNT

/-- The run parameters of the steps that are made. -/
def parms (w : AnalysisSweep β) (tFft : ℕ) : List SpmRunParm :=
  ((w.scan tFft).map ScanResult.steps).getD []

/-- The collector after some steps. -/
def after (w : AnalysisSweep β) (tFft : ℕ) (c : Collector β) : ℕ → Collector β
  | 0 => c
  | k + 1 =>
      match (w.parms tFft)[k]? with
      | none => w.after tFft c k
      | some p => (spmAnalysisStart (w.input k) p (w.after tFft c k)).2

/-- The analysis thread is notified in the step `k`. -/
def Notifies (w : AnalysisSweep β) (tFft : ℕ) (c : Collector β) (k : ℕ) : Prop :=
  ∃ p, (w.parms tFft)[k]? = some p ∧
    (spmAnalysisStart (w.input k) p (w.after tFft c k)).1 = 0

end AnalysisSweep

/-- The static variable `t_fft` and the collector. -/
structure Analysis (β : Type*) where
  tFft : ℕ
  collector : Collector β

/-- The state at the start. -/
def Analysis.init : Analysis β := ⟨0, .init⟩

namespace AnalysisSweep

/-- The state behind a sweep. -/
def run (s : Analysis β) (w : AnalysisSweep β) : Analysis β where
  tFft := ((w.scan s.tFft).map ScanResult.totalFft).getD s.tFft
  collector := w.after s.tFft s.collector (w.parms s.tFft).length

/-- The pool is released when the sweep starts. -/
def StartsReleased (w : AnalysisSweep β) (c : Collector β) : Prop :=
  c.iqReady = false ∨ (w.input 0).release = true

/-- The analysis is enabled during the sweep. -/
def Enabled (w : AnalysisSweep β) : Prop := ∀ i < w.count, (w.input i).enabled = true

/-- Whenever the thread is notified, the pool holds exactly the blocks of the sweep; and a complete
sweep that starts with a released pool and an enabled analysis notifies it in the last step. -/
structure Right (s : Analysis β) (w : AnalysisSweep β) : Prop where
  blocks : ∀ k, w.Notifies s.tFft s.collector k →
    (w.after s.tFft s.collector (k + 1)).iq = w.blocks
  notifies : (w.parms s.tFft).length = w.count → w.StartsReleased s.collector → w.Enabled →
    w.Notifies s.tFft s.collector (w.count - 1)

/-- The sweep does not start the collector, or it has as many steps as the complete sweep before it,
is not cut short before its last step, and the analysis is enabled all the time. -/
def Undisturbed (s : Analysis β) (w : AnalysisSweep β) : Prop :=
  (w.input 0).enabled = false ∨ ¬ w.StartsReleased s.collector ∨
    w.Enabled ∧ (∀ i, i + 1 < w.count → w.reset i = false) ∧ s.tFft = w.count

end AnalysisSweep

/-! ### The steps of a sweep -/

section Steps

variable {ops : SpmOps} {f : Fregment} {reset : ℕ → Bool} {fuel n s scanBw index : ℕ}

/-- The steps are numbered from `index` on and have the number `t_fft` of the segment before; a
whole sweep leaves the number of its steps there. -/
theorem fragmentLoop_counts {r : ScanResult} (hindex : index < 2 ^ 32)
    (h : fragmentLoop ops f reset fuel n s scanBw index = some r) :
    r.steps.length ≤ fuel ∧
      (∀ i p, r.steps[i]? = some p → p.fftSn = (index + i) % 2 ^ 32 ∧ p.totalFft = f.totalFft) ∧
      (r.ret = 0 ∧ r.totalFft = (index + r.steps.length) % 2 ^ 32 ∨
        r.ret = -1 ∧ r.totalFft = f.totalFft) := by
  induction fuel generalizing n s scanBw index r with
  | zero => cases h
  | succ fuel ih =>
    have hfirst (i : ℕ) (p : SpmRunParm)
        (hp : [stepParm ops f s scanBw index][i]? = some p) :
        p.fftSn = (index + i) % 2 ^ 32 ∧ p.totalFft = f.totalFft := by
      cases i with
      | zero =>
        obtain rfl := Option.some.inj hp
        exact ⟨(Nat.mod_eq_of_lt hindex).symm, rfl⟩
      | succ i => cases hp
    rw [fragmentLoop] at h
    split_ifs at h with hreset hmore
    · obtain rfl := Option.some.inj h
      exact ⟨Nat.succ_le_succ (Nat.zero_le fuel), hfirst, .inr ⟨rfl, rfl⟩⟩
    · obtain ⟨r, hr, rfl⟩ := Option.map_eq_some_iff.mp h
      obtain ⟨hlen, hsteps, hret⟩ := ih (Nat.mod_lt _ (Nat.two_pow_pos 32)) hr
      refine ⟨Nat.succ_le_succ hlen, ?_, ?_⟩
      · intro i p hp
        cases i with
        | zero => exact hfirst 0 p hp
        | succ i =>
          obtain ⟨hsn, htotal⟩ := hsteps i p hp
          refine ⟨?_, htotal⟩
          rw [hsn, Nat.mod_add_mod, Nat.add_assoc, Nat.add_comm 1 i]
      · rw [Nat.mod_add_mod, Nat.add_assoc, Nat.add_comm 1] at hret
        exact hret
    · obtain rfl := Option.some.inj h
      exact ⟨Nat.succ_le_succ (Nat.zero_le fuel), hfirst, .inl ⟨rfl, rfl⟩⟩

/-- With a reset a sweep makes the first of its steps, the last of them the one with the reset. -/
theorem fragmentLoop_reset {r₀ : ScanResult} (t : ℕ)
    (h : fragmentLoop ops f (fun _ => false) fuel n s scanBw index = some r₀) :
    ∃ r, fragmentLoop ops { f with totalFft := t } reset fuel n s scanBw index = some r ∧
      0 < r.steps.length ∧ r.steps.length ≤ r₀.steps.length ∧
      (r.steps.length < r₀.steps.length → reset (n + (r.steps.length - 1)) = true) ∧
      (r.ret = 0 → r.steps.length = r₀.steps.length) := by
  induction fuel generalizing n s scanBw index r₀ with
  | zero => cases h
  | succ fuel ih =>
    rw [fragmentLoop] at h ⊢
    simp only [Bool.false_eq_true, if_false] at h
    split_ifs at h with hmore
    · obtain ⟨r₀, hr₀, rfl⟩ := Option.map_eq_some_iff.mp h
      obtain ⟨r, hr, hpos, hle, hcut, hret⟩ := ih hr₀
      split_ifs with hreset
      · exact ⟨_, rfl, Nat.one_pos, Nat.succ_le_succ (Nat.zero_le _), fun _ => hreset, by simp⟩
      · rw [hr]
        refine ⟨_, rfl, Nat.succ_pos _, Nat.succ_le_succ hle, ?_, ?_⟩
        · intro hlt
          have hlast := hcut (Nat.lt_of_succ_lt_succ hlt)
          have hnum (p : SpmRunParm) : n + ((r.cons p).steps.length - 1) =
              n + 1 + (r.steps.length - 1) := by
            rw [ScanResult.cons, List.length_cons]
            omega
          rw [hnum]
          exact hlast
        · intro hzero
          exact congrArg (· + 1) (hret hzero)
    · obtain rfl := Option.some.inj h
      split_ifs with hreset
      · exact ⟨_, rfl, Nat.one_pos, le_rfl, fun _ => hreset, fun _ => rfl⟩
      · exact ⟨_, rfl, Nat.one_pos, le_rfl, fun hlt => absurd hlt (lt_irrefl _), fun _ => rfl⟩

end Steps

namespace AnalysisSweep

/-- What the collector sees of a sweep: steps numbered from zero on, all with the number of steps of
the complete sweep before. -/
structure Steps (w : AnalysisSweep β) (t : ℕ) : Prop where
  pos : 0 < (w.parms t).length
  le_count : (w.parms t).length ≤ w.count
  fftSn : ∀ (i : ℕ) (p : SpmRunParm), (w.parms t)[i]? = some p → p.fftSn = i ∧ p.totalFft = t
  reset : (w.parms t).length < w.count → w.reset ((w.parms t).length - 1) = true

theorem count_le (w : AnalysisSweep β) : w.count ≤ SPECTRUM_MAX_SCAN_COUNT :=
  (fragmentLoop_counts (by decide) (Option.some_get w.fits).symm).1

theorem steps (w : AnalysisSweep β) (t : ℕ) : w.Steps t := by
  obtain ⟨r, hr, hpos, hle, hcut, -⟩ : ∃ r, w.scan t = some r ∧ 0 < r.steps.length ∧
      r.steps.length ≤ w.count ∧
      (r.steps.length < w.count → w.reset (0 + (r.steps.length - 1)) = true) ∧
      (r.ret = 0 → r.steps.length = w.count) :=
    fragmentLoop_reset t (Option.some_get w.fits).symm
  have hparms : w.parms t = r.steps := by
    rw [parms, hr]
    rfl
  obtain ⟨hlen, hsteps, -⟩ := fragmentLoop_counts (by decide) hr
  refine ⟨?_, ?_, ?_, ?_⟩
  · rwa [hparms]
  · rwa [hparms]
  · rw [hparms]
    intro i p hp
    obtain ⟨hsn, htotal⟩ := hsteps i p hp
    have hi : i < SPECTRUM_MAX_SCAN_COUNT :=
      (List.getElem?_eq_some_iff.mp hp).1.trans_le hlen
    have hmax : SPECTRUM_MAX_SCAN_COUNT = 50 := rfl
    refine ⟨?_, htotal⟩
    rw [hsn, Nat.zero_add]
    exact Nat.mod_eq_of_lt (by omega)
  · rw [hparms]
    intro hlt
    have hlast := hcut hlt
    rwa [Nat.zero_add] at hlast

/-- Without a reset before its last step a sweep makes all its steps. -/
theorem length_parms (w : AnalysisSweep β) (t : ℕ)
    (hreset : ∀ i, i + 1 < w.count → w.reset i = false) : (w.parms t).length = w.count := by
  obtain ⟨hpos, hle, -, hcut⟩ := w.steps t
  by_contra hne
  have hlt := Nat.lt_of_le_of_ne hle hne
  rw [hreset _ (by omega)] at hcut
  exact absurd (hcut hlt) (by decide)

end AnalysisSweep

/-! ### One step of the collector -/

/-- The collector between two sweeps: it does not write, and a released pool is empty. -/
structure Collector.Clean (c : Collector β) : Prop where
  isSysnWrite : c.isSysnWrite = false
  oldFftSn : c.oldFftSn = -1
  iq : c.iqReady = false → c.iq = []

theorem Collector.Clean.init : (Collector.init : Collector β).Clean := ⟨rfl, rfl, fun _ => rfl⟩

theorem Collector.Clean.release {c : Collector β} (h : c.Clean) : c.release.Clean := by
  unfold Collector.release
  split_ifs
  · exact ⟨h.isSysnWrite, h.oldFftSn, fun _ => rfl⟩
  · exact h

/-- A collector that does not write starts with step `0` of a sweep, for a released pool, only. -/
theorem write_idle {c : Collector β} (h : c.Clean) {p : SpmRunParm}
    (hstart : p.fftSn ≠ 0 ∨ c.iqReady = true) (data : β) :
    specturmWriteOneframeIqDataToBuffer p data c = (-1, c) := by
  have hnot : ¬ (p.fftSn = 0 ∧ c.iqReady = false ∧ c.oldFftSn % 2 ^ 32 ≠ p.fftSn) := by
    rintro ⟨hsn, hready, -⟩
    obtain hne | hbusy := hstart
    · exact hne hsn
    · rw [hready] at hbusy
      cases hbusy
  rw [specturmWriteOneframeIqDataToBuffer, if_neg hnot]
  simp only [h.isSysnWrite, Bool.false_eq_true, false_and, if_false, ite_self]

/-- Such a collector stays as it is, up to a release of the pool. -/
theorem spmAnalysisStart_idle {c : Collector β} (h : c.Clean) {p : SpmRunParm} {x : StepInput β}
    (hstart : p.fftSn ≠ 0 ∨ x.enabled = false ∨ c.iqReady = true ∧ x.release = false) :
    (spmAnalysisStart x p c).1 = -1 ∧ (spmAnalysisStart x p c).2.Clean := by
  have hclean : (if x.release then c.release else c).Clean := by
    split_ifs
    · exact h.release
    · exact h
  unfold spmAnalysisStart
  cases hen : x.enabled with
  | false => exact ⟨rfl, hclean⟩
  | true =>
    have hbusy : p.fftSn ≠ 0 ∨ (if x.release then c.release else c).iqReady = true := by
      obtain hne | hoff | ⟨hready, hrelease⟩ := hstart
      · exact .inl hne
      · rw [hen] at hoff
        cases hoff
      · simp only [hrelease, Bool.false_eq_true, if_false]
        exact .inr hready
    simp only [if_true]
    rw [write_idle hclean hbusy]
    exact ⟨rfl, hclean⟩

/-- The collector at step `k` of a sweep that it collects. -/
structure AnalysisSweep.Collecting (w : AnalysisSweep β) (k : ℕ) (c : Collector β) : Prop where
  iqReady : c.iqReady = false
  iq : c.iq = (List.range k).map fun i => (w.input i).data
  oldFftSn : c.oldFftSn % 2 ^ 32 ≠ k
  isSysnWrite : k = 0 ∨ c.isSysnWrite = true

/-- A step that is collected: one more block, and a notification with the last one. -/
theorem AnalysisSweep.Collecting.write {w : AnalysisSweep β} {k : ℕ} {c : Collector β}
    (h : w.Collecting k c) (hk : k < w.count) {p : SpmRunParm} (hsn : p.fftSn = k)
    (htotal : p.totalFft = w.count) :
    specturmWriteOneframeIqDataToBuffer p (w.input k).data c =
      if k + 1 = w.count then (0, ⟨false, -1, true, w.blocks⟩)
      else (-1, ⟨true, k, false, (List.range (k + 1)).map fun i => (w.input i).data⟩) := by
  have hcount := w.count_le
  have hmax : SPECTRUM_MAX_SCAN_COUNT = 50 := rfl
  have hwrites : (if p.fftSn = 0 ∧ c.iqReady = false ∧ c.oldFftSn % 2 ^ 32 ≠ p.fftSn then
      { c with isSysnWrite := true } else c) = { c with isSysnWrite := true } := by
    split_ifs with hstart
    · rfl
    · obtain hzero | hsysn := h.isSysnWrite
      · subst hzero
        exact absurd ⟨hsn, h.iqReady, by rw [hsn]; exact h.oldFftSn⟩ hstart
      · rw [← hsysn]
  have hlen : c.iq.length < SPECTRUM_MAX_SCAN_COUNT := by
    rw [h.iq, List.length_map, List.length_range]
    omega
  have hold : c.oldFftSn % 2 ^ 32 ≠ p.fftSn := by
    rw [hsn]
    exact h.oldFftSn
  have hbmod : Int.bmod p.fftSn (2 ^ 32) = k := by
    rw [hsn]
    exact Int.bmod_eq_of_le (by omega) (by omega)
  have hlast : ((p.fftSn : ℤ) = ((p.totalFft : ℤ) - 1) % 2 ^ 32) ↔ k + 1 = w.count := by
    rw [hsn, htotal, Int.emod_eq_of_lt (by omega) (by omega)]
    omega
  have hiq : c.iq ++ [(w.input k).data] =
      (List.range (k + 1)).map fun i => (w.input i).data := by
    rw [List.range_succ, List.map_append, h.iq]
    rfl
  rw [specturmWriteOneframeIqDataToBuffer, if_neg (by omega), hwrites]
  simp only [hold, ne_eq, not_false_eq_true, and_self, if_true, Collector.write, hlen, hbmod, hlast,
    hiq, h.iqReady]
  split_ifs with hend
  · rw [AnalysisSweep.blocks, ← hend]
  · rfl

/-! ### Whole sweeps -/

namespace AnalysisSweep

variable {w : AnalysisSweep β} {t : ℕ} {c : Collector β}

theorem after_succ {k : ℕ} {p : SpmRunParm} (hp : (w.parms t)[k]? = some p) :
    w.after t c (k + 1) = (spmAnalysisStart (w.input k) p (w.after t c k)).2 := by
  rw [after, hp]

/-- A sweep that does not start the collector leaves it clean and does not notify. -/
theorem idle_after (h : c.Clean)
    (hidle : (w.input 0).enabled = false ∨ ¬ w.StartsReleased c) (k : ℕ) :
    (w.after t c k).Clean ∧ ¬ w.Notifies t c k := by
  have hsteps := w.steps t
  have hbusy : (w.input 0).enabled = false ∨ c.iqReady = true ∧ (w.input 0).release = false := by
    unfold StartsReleased at hidle
    simpa only [not_or, Bool.not_eq_false, Bool.not_eq_true] using hidle
  have hstart (k : ℕ) (p : SpmRunParm) (hp : (w.parms t)[k]? = some p) : p.fftSn ≠ 0 ∨
      (w.input k).enabled = false ∨
        (w.after t c k).iqReady = true ∧ (w.input k).release = false := by
    cases k with
    | zero => exact .inr hbusy
    | succ k =>
      rw [(hsteps.fftSn _ p hp).1]
      exact .inl (Nat.succ_ne_zero k)
  have hclean : (w.after t c k).Clean := by
    induction k with
    | zero => exact h
    | succ k ih =>
      cases hp : (w.parms t)[k]? with
      | none =>
        rw [after, hp]
        exact ih
      | some p =>
        rw [after_succ hp]
        exact (spmAnalysisStart_idle ih (hstart k p hp)).2
  refine ⟨hclean, ?_⟩
  rintro ⟨p, hp, hret⟩
  rw [(spmAnalysisStart_idle hclean (hstart k p hp)).1] at hret
  exact absurd hret (by decide)

/-- A step that is collected, with the release of the pool that may come before it. -/
theorem Collecting.start {k : ℕ} (henabled : w.Enabled) (hk : k < w.count) {p : SpmRunParm}
    (hp : (w.parms w.count)[k]? = some p)
    (h : w.Collecting k (if (w.input k).release then (w.after w.count c k).release
      else w.after w.count c k)) :
    spmAnalysisStart (w.input k) p (w.after w.count c k) =
      if k + 1 = w.count then (0, ⟨false, -1, true, w.blocks⟩)
      else (-1, ⟨true, k, false, (List.range (k + 1)).map fun i => (w.input i).data⟩) := by
  obtain ⟨hsn, htotal⟩ := (w.steps w.count).fftSn k p hp
  rw [spmAnalysisStart, if_pos (henabled k hk)]
  exact h.write hk hsn htotal

/-- The collector along an undisturbed sweep that starts it. -/
theorem collecting_after (h : c.Clean) (hrelease : w.StartsReleased c) (henabled : w.Enabled)
    (hlen : (w.parms w.count).length = w.count) {k : ℕ} (hk : k < w.count) :
    w.Collecting k (if (w.input k).release then (w.after w.count c k).release
      else w.after w.count c k) := by
  induction k with
  | zero =>
    have hempty : (if (w.input 0).release then c.release else c).iqReady = false := by
      obtain hready | hrel := hrelease
      · unfold Collector.release
        simp only [hready, Bool.false_eq_true, if_false, ite_self]
      · rw [if_pos hrel, Collector.release]
        split_ifs with hready
        · rfl
        · exact Bool.not_eq_true _ ▸ hready
    have hclean : (if (w.input 0).release then c.release else c).Clean := by
      split_ifs
      · exact h.release
      · exact h
    refine ⟨hempty, hclean.iq hempty, ?_, .inl rfl⟩
    change (if (w.input 0).release then c.release else c).oldFftSn % 2 ^ 32 ≠ _
    rw [hclean.oldFftSn]
    decide
  | succ k ih =>
    have hcount := w.count_le
    have hmax : SPECTRUM_MAX_SCAN_COUNT = 50 := rfl
    obtain ⟨p, hp⟩ : ∃ p, (w.parms w.count)[k]? = some p :=
      ⟨_, List.getElem?_eq_getElem (by omega)⟩
    have hstep := (ih (by omega)).start henabled (by omega) hp
    rw [if_neg (by omega)] at hstep
    rw [after_succ hp, hstep]
    have hkeep : (Collector.mk true k false ((List.range (k + 1)).map fun i => (w.input i).data)
        : Collector β).release = ⟨true, k, false, (List.range (k + 1)).map fun i =>
          (w.input i).data⟩ := rfl
    rw [hkeep, ite_self]
    refine ⟨rfl, rfl, ?_, .inr rfl⟩
    change (k : ℤ) % 2 ^ 32 ≠ _
    omega

/-- An undisturbed sweep that starts the collector notifies in its last step only, with its blocks
in the pool. -/
theorem notifies_iff (h : c.Clean) (hrelease : w.StartsReleased c) (henabled : w.Enabled)
    (hlen : (w.parms w.count).length = w.count) (k : ℕ) :
    (w.Notifies w.count c k ↔ k + 1 = w.count) ∧
      (k + 1 = w.count → w.after w.count c (k + 1) = ⟨false, -1, true, w.blocks⟩) := by
  rcases Nat.lt_or_ge k w.count with hk | hk
  · obtain ⟨p, hp⟩ : ∃ p, (w.parms w.count)[k]? = some p :=
      ⟨_, List.getElem?_eq_getElem (hk.trans_eq hlen.symm)⟩
    have hstep := (collecting_after h hrelease henabled hlen hk).start henabled hk hp
    rw [after_succ hp]
    unfold Notifies
    simp only [hp, Option.some.injEq, exists_eq_left', hstep]
    split_ifs with hend
    · exact ⟨iff_of_true rfl hend, fun _ => rfl⟩
    · have hret : (-1 : ℤ) ≠ 0 := by decide
      exact ⟨iff_of_false hret hend, fun hlast => absurd hlast hend⟩
  · have hnone : (w.parms w.count)[k]? = none := List.getElem?_eq_none (hlen.trans_le hk)
    have hpast : k + 1 ≠ w.count := by omega
    refine ⟨iff_of_false ?_ hpast, fun hlast => absurd hlast hpast⟩
    rintro ⟨p, hp, -⟩
    rw [hnone] at hp
    cases hp

/-- An undisturbed sweep is right and leaves the collector clean. -/
theorem right_and_clean {s : Analysis β} (hclean : s.collector.Clean) (h : w.Undisturbed s) :
    w.Right s ∧ (run s w).collector.Clean := by
  obtain ⟨t, c⟩ := s
  have hpos : 0 < w.count := (w.steps t).pos.trans_le (w.steps t).le_count
  by_cases hidle : (w.input 0).enabled = false ∨ ¬ w.StartsReleased c
  · have hafter := fun k => idle_after (t := t) hclean hidle k
    refine ⟨⟨fun k hk => absurd hk (hafter k).2, ?_⟩, (hafter _).1⟩
    intro _ hrelease henabled
    obtain hoff | hbusy := hidle
    · rw [henabled 0 hpos] at hoff
      cases hoff
    · exact absurd hrelease hbusy
  · obtain ⟨hon, hrelease⟩ := not_or.mp hidle
    rw [not_not] at hrelease
    obtain hoff | hbusy | ⟨henabled, hreset, rfl⟩ := h
    · exact absurd hoff hon
    · exact absurd hrelease hbusy
    have hlen := w.length_parms w.count hreset
    have hlast : w.count - 1 + 1 = w.count := Nat.succ_pred_eq_of_pos hpos
    have hwhole := notifies_iff hclean hrelease henabled hlen
    refine ⟨⟨?_, fun _ _ _ => (hwhole _).1.mpr hlast⟩, ?_⟩
    · intro k hk
      have hend := (hwhole k).1.mp hk
      exact congrArg Collector.iq ((hwhole k).2 hend)
    · have hafter := (hwhole (w.count - 1)).2 hlast
      rw [hlast] at hafter
      have hrun : (run ⟨w.count, c⟩ w).collector = ⟨false, -1, true, w.blocks⟩ := by
        rw [run, hlen]
        exact hafter
      rw [hrun]
      exact ⟨rfl, rfl, fun hfree => by cases hfree⟩

end AnalysisSweep

/-! ### Runs -/

/-- In a run of undisturbed sweeps, every sweep is right: each time the analysis thread is notified
the pool holds exactly the blocks of the sweep, and every complete sweep that starts with a released
pool and an enabled analysis notifies it. -/
theorem right_of_undisturbed (ws : List (AnalysisSweep β))
    (h : ∀ pre w, pre ++ [w] <+: ws → w.Undisturbed (pre.foldl AnalysisSweep.run .init)) :
    ∀ pre w, pre ++ [w] <+: ws → w.Right (pre.foldl AnalysisSweep.run .init) :=
  forall_steps_of (P := fun s : Analysis β => s.collector.Clean) Collector.Clean.init
    (fun _ _ hclean hw => (AnalysisSweep.right_and_clean hclean hw).2)
    (fun _ _ hclean hw => (AnalysisSweep.right_and_clean hclean hw).1) h

/-- A segment of two steps. -/
def twoSteps : Fregment where
  fregmentNum := 0
  startFreq := 100
  endFreq := 300
  scanBw := 100
  totalFft := 0

/-- A whole sweep over two steps that read `x` and `x + 1`. -/
def twoStepSweep (enabled : Bool) (x : ℕ) : AnalysisSweep ℕ where
  fregment := twoSteps
  reset _ := false
  input i := ⟨false, enabled, x + i⟩
  fits := by decide

/-- A sweep before the analysis is enabled, and one after it. -/
theorem right_of_undisturbed_enabled :
    (twoStepSweep true 10).Right ([twoStepSweep false 0].foldl AnalysisSweep.run .init) := by
  refine right_of_undisturbed [twoStepSweep false 0, twoStepSweep true 10] ?_
    [twoStepSweep false 0] (twoStepSweep true 10) (List.prefix_refl _)
  refine forall_step_cons.mpr ⟨.inl rfl, forall_step_cons.mpr ⟨?_, forall_step_nil⟩⟩
  have hcount : (twoStepSweep true 10).count = 2 := by decide
  refine .inr (.inr ⟨fun _ _ => rfl, fun _ _ => rfl, ?_⟩)
  rw [hcount]
  decide

/-- With the analysis enabled from the start, the second sweep is handed over together with the
first one. -/
theorem not_right_second :
    ¬ ∀ (ws : List (AnalysisSweep ℕ)) (pre : List (AnalysisSweep ℕ)) (w : AnalysisSweep ℕ),
      pre ++ [w] <+: ws → w.Right (pre.foldl AnalysisSweep.run .init) := by
  intro h
  have hright := h [twoStepSweep true 0, twoStepSweep true 10] [twoStepSweep true 0]
    (twoStepSweep true 10) (List.prefix_refl _)
  have hnotifies : (twoStepSweep true 10).Notifies
      ([twoStepSweep true 0].foldl AnalysisSweep.run .init).tFft
      ([twoStepSweep true 0].foldl AnalysisSweep.run .init).collector 1 := by
    exact ⟨_, rfl, by decide⟩
  have hblocks := hright.blocks 1 hnotifies
  exact absurd hblocks (by decide)

end M57Card.Executor
