import Mathlib.Algebra.Order.Group.Nat
import Mathlib.Algebra.Ring.Int.Defs
import Mathlib.Algebra.Ring.Nat
import M57Card.Lib.Intervals

/-!
# The segment scan

`executor_fragment_scan` (`executor.c`, lines 69–139) goes through a frequency segment in steps. In
each step `spm_scan` takes the next piece of the segment and moves the offset behind it; the step is
then described in the run parameters, and the data of the piece are read. There are two
implementations of `spm_scan` (`spm_chip.c`, lines 539–573, and `spm_fpga.c`, lines 954–999); the
one for the FPGA has a fixed bandwidth. Built without `SUPPORT_DIRECT_SAMPLE`, and without the two
projects that change the frequencies (`SUPPORT_PROJECT_WD_XCR_40G`, `SUPPORT_PROJECT_SSA_MONITOR`),
they differ in the bandwidth and in the center frequency that is tuned.

Frequencies have 64 bits, bandwidths and the number of a step 32 bits. A reset can be signalled in
any step, and ends the scan behind it.

## Main definitions

* `SpmScan`, `spmScanChip`, `spmScanFpga` : the two implementations.
* `SpmRunParm`, `executorFragmentScan` : the steps of a scan.
* `TilesBand` : what the steps of a scan should be.

## Main results

* `spmScan_next` : one step takes the next piece.
* `fragmentLoop_spec` : the loop, from any offset on.
* `executorFragmentScan_tiles` : the steps of a scan tile the segment.
* `executorFragmentScan_fftSn_wraps` : a scan of more than `2 ^ 32` steps.
-/

namespace M57Card.Executor

open Intervals

/-! ### The model -/

/-- The difference of two `uint64_t`. -/
def sub64 (a b : ℕ) : ℕ := (((a : ℤ) - b) % 2 ^ 64).toNat

/-- What `spm_scan` leaves behind its pointers. -/
structure SpmScan where
  sFreqOffset : ℕ
  scanBw : ℕ
  bw : ℕ
  mFreq : ℕ
  deriving DecidableEq

/-- The offset behind the next piece, and the bandwidth of the piece: the scan bandwidth, or the
rest of the segment if that is less. -/
def nextPiece (sFreq eFreq scanBw : ℕ) : ℕ × ℕ :=
  if 0 < sub64 eFreq sFreq / scanBw then ((sFreq + scanBw) % 2 ^ 64, scanBw)
  else (eFreq, sub64 eFreq sFreq % 2 ^ 32)

/-- `spm_scan` of `spm_chip.c`. -/
def spmScanChip (sFreq eFreq scanBw : ℕ) : SpmScan where
  sFreqOffset := (nextPiece sFreq eFreq scanBw).1
  scanBw := scanBw
  bw := (nextPiece sFreq eFreq scanBw).2
  mFreq := (sFreq + scanBw / 2) % 2 ^ 64

/-- `MAX_SCAN_FREQ_HZ`. -/
def MAX_SCAN_FREQ_HZ : ℕ := 6000000000

/-- The scan bandwidth of the FPGA. -/
def fpgaScanBw : ℕ := 175000000

/-- `spm_scan` of `spm_fpga.c`. -/
def spmScanFpga (sFreq eFreq _scanBw : ℕ) : SpmScan :=
  let bw := (nextPiece sFreq eFreq fpgaScanBw).2
  let mFreq := (sFreq + bw / 2) % 2 ^ 64
  { sFreqOffset := (nextPiece sFreq eFreq fpgaScanBw).1
    scanBw := fpgaScanBw
    bw := bw
    mFreq := if MAX_SCAN_FREQ_HZ < mFreq then MAX_SCAN_FREQ_HZ else mFreq }

/-- The implementations of `spm_scan`. -/
inductive SpmOps where
  | chip
  | fpga
  deriving DecidableEq

namespace SpmOps

/-- `ops->spm_scan`. -/
def spmScan : SpmOps → ℕ → ℕ → ℕ → SpmScan
  | chip => spmScanChip
  | fpga => spmScanFpga

/-- The bandwidth of a full step. -/
def stepBw : SpmOps → ℕ → ℕ
  | chip, scanBw => scanBw
  | fpga, _ => fpgaScanBw

end SpmOps

/-- The fields of `struct spm_run_parm` that a step sets. -/
structure SpmRunParm where
  sFreqOffset : ℕ
  sFreq : ℕ
  eFreq : ℕ
  scanBw : ℕ
  bandwidth : ℕ
  mFreq : ℕ
  mFreqS : ℕ
  fftSn : ℕ
  totalFft : ℕ
  fregmentNum : ℕ
  deriving DecidableEq

/-- The segment that is scanned: its number and its ends, the `mid_bw` of the channel, and
`t_fft`, the number of steps of the scan before. -/
structure Fregment where
  fregmentNum : ℕ
  startFreq : ℕ
  endFreq : ℕ
  scanBw : ℕ
  totalFft : ℕ

/-- The run parameters of the steps of a scan in their order, its result, and `t_fft` behind it. -/
structure ScanResult where
  steps : List SpmRunParm
  ret : ℤ
  totalFft : ℕ
  deriving DecidableEq

/-- One more step in front. -/
def ScanResult.cons (parm : SpmRunParm) (r : ScanResult) : ScanResult :=
  { r with steps := parm :: r.steps }

section Scan

variable (ops : SpmOps) (f : Fregment) (reset : ℕ → Bool)

/-- The run parameters of a step. -/
def stepParm (sFreqOffset scanBw index : ℕ) : SpmRunParm :=
  let r := ops.spmScan sFreqOffset f.endFreq scanBw
  { sFreqOffset := sFreqOffset
    sFreq := f.startFreq
    eFreq := f.endFreq
    scanBw := r.scanBw
    bandwidth := r.bw
    mFreq := (sFreqOffset + r.bw / 2) % 2 ^ 64
    mFreqS := r.mFreq
    fftSn := index
    totalFft := f.totalFft
    fregmentNum := f.fregmentNum }

/-- The `do` loop of `executor_fragment_scan`. `reset` says whether a reset is signalled in a step;
the steps are numbered by `n`, and `index` is the variable of the code. The first argument bounds
the number of steps; without a result the loop has not ended. -/
def fragmentLoop : ℕ → ℕ → ℕ → ℕ → ℕ → Option ScanResult
  | 0, _, _, _, _ => none
  | fuel + 1, n, sFreqOffset, scanBw, index =>
      let r := ops.spmScan sFreqOffset f.endFreq scanBw
      let parm := stepParm ops f sFreqOffset scanBw index
      if reset n then
        some ⟨[parm], -1, f.totalFft⟩
      else if r.sFreqOffset < f.endFreq then
        (fragmentLoop fuel (n + 1) r.sFreqOffset r.scanBw ((index + 1) % 2 ^ 32)).map
          (ScanResult.cons parm)
      else
        some ⟨[parm], 0, (index + 1) % 2 ^ 32⟩

/-- `executor_fragment_scan`, with at most `fuel` steps. -/
def executorFragmentScan (fuel : ℕ) : Option ScanResult :=
  fragmentLoop ops f reset fuel 0 f.startFreq f.scanBw 0

end Scan

/-- The piece of the segment that a step takes. -/
def SpmRunParm.piece (p : SpmRunParm) : ℕ × ℕ := (p.sFreqOffset, p.bandwidth)

/-- The steps of a scan of the frequencies from `s` to `e` with the bandwidth `bw`: one behind the
other, disjoint and with the segment as their union, all but the last with the whole bandwidth, and
numbered by `sn`. -/
structure TilesBand (s e bw : ℕ) (sn : ℕ → ℕ) (ps : List SpmRunParm) : Prop where
  consecutive : ps.IsChain fun p q => q.sFreqOffset = p.sFreqOffset + p.bandwidth
  disjoint : ps.Pairwise fun p q => Disjoint (span p.piece) (span q.piece)
  union : ∀ x, (∃ p ∈ ps, x ∈ span p.piece) ↔ x ∈ Set.Ico s e
  full : ∀ p ∈ ps.dropLast, p.bandwidth = bw
  last : ∀ p ∈ ps.getLast?, p.bandwidth ≤ bw
  scanBw : ∀ p ∈ ps, p.scanBw = bw
  fftSn : ps.map SpmRunParm.fftSn = (List.range ps.length).map sn
  mFreq : ∀ p ∈ ps, p.mFreq = p.sFreqOffset + p.bandwidth / 2

/-! ### One step -/

theorem sub64_eq {a b : ℕ} (hle : b ≤ a) (ha : a < 2 ^ 64) : sub64 a b = a - b := by
  rw [sub64, ← Int.ofNat_sub hle]
  omega

/-- A whole scan bandwidth is left. -/
theorem div_pos_of_le {s e bw : ℕ} (hse : s ≤ e) (he : e < 2 ^ 64) (hpos : 0 < bw)
    (hle : bw ≤ e - s) : 0 < sub64 e s / bw := by
  rw [sub64_eq hse he]
  exact Nat.div_pos hle hpos

/-- Less than the scan bandwidth is left. -/
theorem not_div_pos_of_lt {s e bw : ℕ} (hse : s ≤ e) (he : e < 2 ^ 64) (hlt : e - s < bw) :
    ¬ 0 < sub64 e s / bw := by
  rw [sub64_eq hse he, Nat.div_eq_of_lt hlt]
  exact lt_irrefl 0

/-- A full piece. -/
theorem nextPiece_of_le {s e bw : ℕ} (hse : s ≤ e) (he : e < 2 ^ 64) (hpos : 0 < bw)
    (hle : bw ≤ e - s) : nextPiece s e bw = (s + bw, bw) := by
  have hsum : s + bw < 2 ^ 64 := (Nat.add_le_of_le_sub' hse hle).trans_lt he
  exact (if_pos (div_pos_of_le hse he hpos hle)).trans
    (congrArg (fun offset => (offset, bw)) (Nat.mod_eq_of_lt hsum))

/-- The rest of a segment. -/
theorem nextPiece_of_lt {s e bw : ℕ} (hse : s ≤ e) (he : e < 2 ^ 64) (hbw : bw < 2 ^ 32)
    (hlt : e - s < bw) : nextPiece s e bw = (e, e - s) := by
  have hrest : sub64 e s % 2 ^ 32 = e - s := by
    rw [sub64_eq hse he]
    exact Nat.mod_eq_of_lt (hlt.trans hbw)
  exact (if_neg (not_div_pos_of_lt hse he hlt)).trans
    (congrArg (fun bandwidth => (e, bandwidth)) hrest)

/-- **The next piece** stands at the offset, is not empty while something is left, and is not longer
than the scan bandwidth; behind it the scan is at most at the end of the segment, and only a full
piece can leave something over. -/
theorem nextPiece_spec {s e bw : ℕ} (hse : s ≤ e) (he : e < 2 ^ 64) (hpos : 0 < bw)
    (hbw : bw < 2 ^ 32) :
    (nextPiece s e bw).1 = s + (nextPiece s e bw).2 ∧ (nextPiece s e bw).2 ≤ bw ∧
      (nextPiece s e bw).1 ≤ e ∧ ((nextPiece s e bw).1 < e → (nextPiece s e bw).2 = bw) := by
  rcases Nat.lt_or_ge (e - s) bw with hlt | hle
  · rw [nextPiece_of_lt hse he hbw hlt]
    exact ⟨(Nat.add_sub_cancel' hse).symm, hlt.le, le_refl e, fun h => absurd h (lt_irrefl e)⟩
  · rw [nextPiece_of_le hse he hpos hle]
    exact ⟨rfl, le_refl bw, Nat.add_le_of_le_sub' hse hle, fun _ => rfl⟩

/-- **One step takes the next piece**, whatever the implementation. -/
theorem spmScan_next (ops : SpmOps) (s e scanBw : ℕ) :
    (ops.spmScan s e scanBw).scanBw = ops.stepBw scanBw ∧
      (ops.spmScan s e scanBw).sFreqOffset = (nextPiece s e (ops.stepBw scanBw)).1 ∧
      (ops.spmScan s e scanBw).bw = (nextPiece s e (ops.stepBw scanBw)).2 := by
  cases ops with
  | chip => exact ⟨rfl, rfl, rfl⟩
  | fpga => exact ⟨rfl, rfl, rfl⟩

theorem SpmOps.stepBw_stepBw (ops : SpmOps) (scanBw : ℕ) :
    ops.stepBw (ops.stepBw scanBw) = ops.stepBw scanBw := by
  cases ops with
  | chip => rfl
  | fpga => rfl

/-- The bandwidth of a full step has 32 bits and is not zero. -/
theorem SpmOps.stepBw_bounds (ops : SpmOps) {scanBw : ℕ} (hpos : 0 < scanBw)
    (hbw : scanBw < 2 ^ 32) : 0 < ops.stepBw scanBw ∧ ops.stepBw scanBw < 2 ^ 32 := by
  cases ops with
  | chip => exact ⟨hpos, hbw⟩
  | fpga => exact ⟨show 0 < fpgaScanBw by decide, show fpgaScanBw < 2 ^ 32 by decide⟩

section Sweep

variable {ops : SpmOps} {f : Fregment} {bw e : ℕ}

/-- What the run parameters of the step with the number `index` at the offset `s` say. -/
structure StepAt (bw s index : ℕ) (p : SpmRunParm) : Prop where
  sFreqOffset : p.sFreqOffset = s
  fftSn : p.fftSn = index
  scanBw : p.scanBw = bw
  bandwidth : p.bandwidth ≤ bw
  mFreq : p.mFreq = s + p.bandwidth / 2

theorem stepParm_bandwidth (ops : SpmOps) (f : Fregment) (s scanBw index : ℕ) :
    (stepParm ops f s scanBw index).bandwidth =
      (nextPiece s f.endFreq (ops.stepBw scanBw)).2 :=
  (spmScan_next ops s f.endFreq scanBw).2.2

/-- The run parameters of a step within the segment. -/
theorem stepParm_stepAt (ops : SpmOps) {s scanBw : ℕ} (index : ℕ) (hse : s ≤ f.endFreq)
    (he : f.endFreq < 2 ^ 64) (hpos : 0 < scanBw) (hbw : scanBw < 2 ^ 32) :
    StepAt (ops.stepBw scanBw) s index (stepParm ops f s scanBw index) := by
  obtain ⟨hstepPos, hstepBw⟩ := ops.stepBw_bounds hpos hbw
  obtain ⟨hfst, hle, hend, -⟩ := nextPiece_spec hse he hstepPos hstepBw
  have hbandwidth := stepParm_bandwidth ops f s scanBw index
  refine ⟨rfl, rfl, (spmScan_next ops s f.endFreq scanBw).1, hbandwidth.trans_le hle, ?_⟩
  have hbound : s + (stepParm ops f s scanBw index).bandwidth / 2 < 2 ^ 64 := by
    rw [hbandwidth]
    omega
  exact Nat.mod_eq_of_lt hbound

/-- The steps of the loop from the offset `s` and the number `index` on: only the last one may be
shorter than the scan bandwidth, and it ends at the end `e` of the segment. -/
inductive Sweep (bw e : ℕ) : ℕ → ℕ → List SpmRunParm → Prop
  | last {s index : ℕ} {p : SpmRunParm} (hp : StepAt bw s index p) (hend : s + p.bandwidth = e) :
      Sweep bw e s index [p]
  | step {s index : ℕ} {p : SpmRunParm} {ps : List SpmRunParm} (hp : StepAt bw s index p)
      (hfull : p.bandwidth = bw) (hrest : Sweep bw e (s + bw) ((index + 1) % 2 ^ 32) ps) :
      Sweep bw e s index (p :: ps)

namespace Sweep

variable {s index : ℕ} {ps : List SpmRunParm}

theorem ne_nil (h : Sweep bw e s index ps) : ps ≠ [] := by
  cases h with
  | last _ _ => exact List.cons_ne_nil _ _
  | step _ _ _ => exact List.cons_ne_nil _ _

theorem endToEnd (h : Sweep bw e s index ps) : EndToEnd s (ps.map SpmRunParm.piece) e := by
  induction h with
  | @last s index p hp hend =>
    obtain rfl := hp.sFreqOffset
    exact .cons (hend ▸ .nil _)
  | @step s index p ps hp hfull _ ih =>
    obtain rfl := hp.sFreqOffset
    exact .cons (hfull ▸ ih)

theorem full (h : Sweep bw e s index ps) : ∀ p ∈ ps.dropLast, p.bandwidth = bw := by
  induction h with
  | last _ _ => exact fun p hp => absurd hp List.not_mem_nil
  | step _ hfull hrest ih =>
    rw [List.dropLast_cons_of_ne_nil hrest.ne_nil]
    exact List.forall_mem_cons.mpr ⟨hfull, ih⟩

/-- What holds of every step that says what it should holds of all of them. -/
theorem forall_mem {P : SpmRunParm → Prop} (h : Sweep bw e s index ps)
    (hP : ∀ s index p, StepAt bw s index p → P p) : ∀ p ∈ ps, P p := by
  induction h with
  | last hp _ => exact List.forall_mem_singleton.mpr (hP _ _ _ hp)
  | step hp _ _ ih => exact List.forall_mem_cons.mpr ⟨hP _ _ _ hp, ih⟩

/-- The number of a step has 32 bits. -/
theorem fftSn_eq (h : Sweep bw e s index ps) (hindex : index < 2 ^ 32) :
    ps.map SpmRunParm.fftSn = (List.range ps.length).map fun i => (index + i) % 2 ^ 32 := by
  induction h with
  | last hp _ =>
    rw [List.map_singleton, hp.fftSn]
    exact congrArg (fun i => [i]) (Nat.mod_eq_of_lt hindex).symm
  | @step s index p ps hp _ _ ih =>
    have hshift : ((fun i => (index + i) % 2 ^ 32) ∘ Nat.succ) =
        fun i => ((index + 1) % 2 ^ 32 + i) % 2 ^ 32 := by
      funext i
      rw [Nat.mod_add_mod, Nat.add_assoc, Nat.add_comm 1 i]
      rfl
    have hhead : (index + 0) % 2 ^ 32 = index := Nat.mod_eq_of_lt hindex
    rw [List.map_cons, ih (Nat.mod_lt _ (Nat.two_pow_pos 32)), List.length_cons,
      List.range_succ_eq_map, List.map_cons, List.map_map, hshift, hp.fftSn, hhead]

end Sweep

end Sweep

/-! ### The whole loop -/

section Loop

variable {ops : SpmOps} {f : Fregment} {reset : ℕ → Bool}

/-- The loop goes through the steps `ps`: without a reset through all of them, and with one through
the first of them. -/
def GoesThrough (reset : ℕ → Bool) (ps : List SpmRunParm) (r : Option ScanResult) : Prop :=
  ∃ v, r = some v ∧ v.steps <+: ps ∧ (v.ret = 0 → v.steps = ps) ∧
    ((∀ n, reset n = false) → v.ret = 0)

theorem GoesThrough.cons {p : SpmRunParm} {ps : List SpmRunParm} {r : Option ScanResult}
    (h : GoesThrough reset ps r) : GoesThrough reset (p :: ps) (r.map (ScanResult.cons p)) := by
  obtain ⟨v, rfl, hfront, hall, hreset⟩ := h
  exact ⟨v.cons p, rfl, List.cons_prefix_cons.mpr ⟨rfl, hfront⟩,
    fun hret => congrArg (List.cons p) (hall hret), hreset⟩

/-- A reset behind the first step. -/
theorem goesThrough_reset {p : SpmRunParm} {ps : List SpmRunParm} {n t : ℕ} (hn : reset n = true) :
    GoesThrough reset (p :: ps) (some ⟨[p], -1, t⟩) := by
  refine ⟨⟨[p], -1, t⟩, rfl, List.cons_prefix_cons.mpr ⟨rfl, List.nil_prefix⟩, ?_, ?_⟩
  · exact fun hret => absurd hret (by decide : (-1 : ℤ) ≠ 0)
  · exact fun hnone => absurd (hnone n) (by rw [hn]; decide)

/-- **The loop from an offset on**, by the length of what is left of the segment: it goes through
the steps of a sweep, and needs no more rounds than these. -/
theorem fragmentLoop_spec (ops : SpmOps) (he : f.endFreq < 2 ^ 64) {scanBw : ℕ} (hpos : 0 < scanBw)
    (hbw : scanBw < 2 ^ 32) (s index : ℕ) (hse : s ≤ f.endFreq) :
    ∃ ps, Sweep (ops.stepBw scanBw) f.endFreq s index ps ∧ ∀ reset fuel n, ps.length ≤ fuel →
      GoesThrough reset ps (fragmentLoop ops f reset fuel n s scanBw index) := by
  obtain ⟨hstepPos, hstepBw⟩ := ops.stepBw_bounds hpos hbw
  obtain ⟨hscanBw, hoffset, -⟩ := spmScan_next ops s f.endFreq scanBw
  obtain ⟨hnext, -, hend, hfull⟩ := nextPiece_spec hse he hstepPos hstepBw
  have hbandwidth := stepParm_bandwidth ops f s scanBw index
  have hstep := stepParm_stepAt ops index hse he hpos hbw
  rw [← hbandwidth, ← hoffset] at hnext
  rw [← hoffset] at hend
  rcases Nat.lt_or_ge (ops.spmScan s f.endFreq scanBw).sFreqOffset f.endFreq with hlt | hge
  · -- a full piece, and the loop goes on behind it
    have hpiece : (stepParm ops f s scanBw index).bandwidth = ops.stepBw scanBw :=
      hbandwidth.trans (hfull (hoffset ▸ hlt))
    rw [hpiece] at hnext
    obtain ⟨ps, hsweep, hloop⟩ := fragmentLoop_spec ops he hstepPos hstepBw
      (ops.spmScan s f.endFreq scanBw).sFreqOffset ((index + 1) % 2 ^ 32) hend
    rw [ops.stepBw_stepBw, hnext] at hsweep
    refine ⟨_ :: ps, .step hstep hpiece hsweep, fun reset fuel n hfuel => ?_⟩
    obtain ⟨fuel, rfl⟩ := Nat.exists_eq_add_one_of_ne_zero (Nat.ne_of_gt (Nat.lt_of_lt_of_le
      (Nat.succ_pos ps.length) hfuel))
    cases hn : reset n with
    | true =>
      rw [fragmentLoop, hn]
      exact goesThrough_reset hn
    | false =>
      have hrest := hloop reset fuel (n + 1) (Nat.le_of_succ_le_succ hfuel)
      rw [fragmentLoop, hn, hscanBw]
      simp only [Bool.false_eq_true, if_false, if_pos hlt]
      exact hrest.cons
  · -- the last piece
    have hlast : s + (stepParm ops f s scanBw index).bandwidth = f.endFreq :=
      hnext.symm.trans (Nat.le_antisymm hend hge)
    refine ⟨[_], .last hstep hlast, fun reset fuel n hfuel => ?_⟩
    obtain ⟨fuel, rfl⟩ := Nat.exists_eq_add_one_of_ne_zero (Nat.ne_of_gt hfuel)
    cases hn : reset n with
    | true =>
      rw [fragmentLoop, hn]
      exact goesThrough_reset hn
    | false =>
      rw [fragmentLoop, hn]
      simp only [Bool.false_eq_true, if_false, if_neg (Nat.not_lt.mpr hge)]
      exact ⟨_, rfl, List.prefix_refl _, fun _ => rfl, fun _ => rfl⟩
termination_by f.endFreq - s

end Loop

/-- The steps of a sweep over a whole segment. -/
theorem Sweep.tilesBand {bw s e : ℕ} {ps : List SpmRunParm} (h : Sweep bw e s 0 ps) :
    TilesBand s e bw (fun i => i % 2 ^ 32) ps := by
  have hchain := h.endToEnd.isChain
  have hdisjoint := h.endToEnd.pairwise_disjoint
  rw [List.pairwise_map] at hdisjoint
  refine ⟨(List.isChain_map _).mp hchain, hdisjoint, fun x => ?_, h.full,
    fun p hp => ?_, h.forall_mem fun _ _ _ hp => hp.scanBw, ?_, h.forall_mem fun _ _ _ hp => ?_⟩
  · rw [← h.endToEnd.mem_iff x]
    simp only [List.mem_map, exists_exists_and_eq_and]
  · exact h.forall_mem (fun _ _ _ hp => hp.bandwidth) p (List.mem_of_getLast? hp)
  · rw [h.fftSn_eq (by decide)]
    simp only [Nat.zero_add]
  · rw [hp.sFreqOffset]
    exact hp.mFreq

/-- **The segment scan.** For every segment and every scan bandwidth the loop ends, and its steps
tile the segment; the number of a step has 32 bits. With a reset it performs the first of these
steps. -/
theorem executorFragmentScan_tiles (ops : SpmOps) (f : Fregment) (hle : f.startFreq ≤ f.endFreq)
    (he : f.endFreq < 2 ^ 64) (hpos : 0 < f.scanBw) (hbw : f.scanBw < 2 ^ 32) :
    ∃ ps, TilesBand f.startFreq f.endFreq (ops.stepBw f.scanBw) (fun i => i % 2 ^ 32) ps ∧
      ∀ fuel, ps.length ≤ fuel →
        (∃ r, executorFragmentScan ops f (fun _ => false) fuel = some r ∧ r.steps = ps ∧
          r.ret = 0) ∧
        ∀ reset, ∃ r, executorFragmentScan ops f reset fuel = some r ∧ r.steps <+: ps := by
  obtain ⟨ps, hsweep, hloop⟩ := fragmentLoop_spec ops he hpos hbw f.startFreq 0 hle
  refine ⟨ps, hsweep.tilesBand, fun fuel hfuel => ⟨?_, fun reset => ?_⟩⟩
  · obtain ⟨r, hr, -, hall, hret⟩ := hloop (fun _ => false) fuel 0 hfuel
    have hzero := hret fun _ => rfl
    exact ⟨r, hr, hall hzero, hzero⟩
  · obtain ⟨r, hr, hfront, -⟩ := hloop reset fuel 0 hfuel
    exact ⟨r, hr, hfront⟩

/-- A segment of 400 MHz. -/
def narrowFregment : Fregment where
  fregmentNum := 0
  startFreq := 100000000
  endFreq := 500000000
  scanBw := 20000000
  totalFft := 0

theorem executorFragmentScan_tiles_narrow :
    ∃ ps, TilesBand 100000000 500000000 fpgaScanBw (fun i => i % 2 ^ 32) ps ∧
      ∀ fuel, ps.length ≤ fuel →
        (∃ r, executorFragmentScan .fpga narrowFregment (fun _ => false) fuel = some r ∧
          r.steps = ps ∧ r.ret = 0) ∧
        ∀ reset, ∃ r, executorFragmentScan .fpga narrowFregment reset fuel = some r ∧
          r.steps <+: ps :=
  executorFragmentScan_tiles .fpga narrowFregment (by decide) (by decide) (by decide) (by decide)

example : (executorFragmentScan .fpga narrowFregment (fun _ => false) 3).map
    (fun r => r.steps.map fun p => (p.sFreqOffset, p.bandwidth, p.fftSn)) =
      some [(100000000, 175000000, 0), (275000000, 175000000, 1), (450000000, 50000000, 2)] := by
  decide

/-- A segment of 8 GHz, scanned with the bandwidth 1 Hz. -/
def wideFregment : Fregment where
  fregmentNum := 0
  startFreq := 0
  endFreq := 2 ^ 33
  scanBw := 1
  totalFft := 0

/-- **The number of a step wraps**: after `2 ^ 32` steps it is 0 again. -/
theorem executorFragmentScan_fftSn_wraps :
    ∃ ps, (∀ fuel, ps.length ≤ fuel →
        ∃ r, executorFragmentScan .chip wideFregment (fun _ => false) fuel = some r ∧
          r.steps = ps) ∧
      ¬ TilesBand 0 (2 ^ 33) 1 (fun i => i) ps := by
  have hpos : 0 < wideFregment.scanBw := by decide
  have hbw : wideFregment.scanBw < 2 ^ 32 := by decide
  have he : wideFregment.endFreq < 2 ^ 64 := by decide
  obtain ⟨ps, hsweep, hloop⟩ := fragmentLoop_spec SpmOps.chip he hpos hbw 0 0
    (Nat.zero_le _)
  refine ⟨ps, fun fuel hfuel => ?_, fun htiles => ?_⟩
  · obtain ⟨r, hr, -, hall, hret⟩ := hloop (fun _ => false) fuel 0 hfuel
    exact ⟨r, hr, hall (hret fun _ => rfl)⟩
  · -- each step takes 1 Hz, so there are at least `2 ^ 33` of them
    have hlen : 2 ^ 32 < ps.length := by
      have hmul := hsweep.endToEnd.le_add_length_mul (b := 1)
        (List.forall_mem_map.mpr (hsweep.forall_mem fun _ _ _ hp => hp.bandwidth))
      have hend : wideFregment.endFreq = 2 ^ 33 := rfl
      rw [List.length_map, hend] at hmul
      omega
    have hsn := htiles.fftSn.symm.trans hsweep.tilesBand.fftSn
    have hat := congrArg (fun l => l[2 ^ 32]?) hsn
    simp only [List.getElem?_map, List.getElem?_range hlen, Option.map_some] at hat
    exact absurd (Option.some.inj hat) (by decide)

end M57Card.Executor
