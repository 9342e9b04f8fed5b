import Mathlib.Data.List.GetD
import M57Card.Executor.FragmentScan

/-!
# The slice of a spectrum

A step of a segment scan tunes to the whole scan bandwidth, and only the part of its spectrum that
belongs to the piece of the step is sent. `spm_chip_data_order` (`spm_chip.c`, lines 374–409) cuts
it out of the data of the chip. `spm_data_order` (`spm_fpga.c`, lines 510–588) writes the trimmed
spectrum into a buffer and cuts it out of the buffer, and moves the pointer to the buffer behind
what it cuts off in front; the pointer stays there for the next step.

The side rate is a floating-point number. What depends on it are the size of one sideband for the
chip and the length of the trimmed spectrum for the FPGA, which are given with the data. Both
backends are built without `SUPPORT_DIRECT_SAMPLE`, `SUPPORT_SPM_SEND_BUFFER` and
`SUPPORT_SPECTRUM_EXTRACT_POINT`.

## Main definitions

* `spmChipDataOrder`, `spmDataOrder` : the slice of a step.
* `fragmentSteps`, `ScanRun` : the steps of any number of sweeps, with their data.
* `SlicesInside` : every slice lies inside the spectrum.
* `FitsBand` : the bands in front of the pieces so far leave room for the piece.

## Main results

* `SpmBuffer.elems_writeTrimmed` : the trimmed spectrum in the buffer.
* `spmChipDataOrder_inside` : the slices of the chip.
* `ptr_bufferAfter` : where the pointer is behind some steps.
* `slicesInside_of_fitsBand`, `fitsBand_of_slicesInside` : the slices of a run.
-/

namespace M57Card.Executor

/-! ### The model -/

/-- `work_mode_type`. -/
inductive WorkMode where
  | fixedFreqAnys
  | fastScan
  | multiZoneScan
  | multiPointScan
  | null
  deriving DecidableEq

/-- The data of a step: the samples, and what the side rate makes of their number, the size of one
sideband and the length of the trimmed spectrum. -/
structure Spectrum where
  samples : List ℤ
  singleSidebandSize : ℕ
  orderLen : ℕ
  sidebands_le : 2 * singleSidebandSize ≤ samples.length
  orderLen_le : orderLen ≤ samples.length

/-- The mask that makes a length even. -/
def evenLen (n : ℕ) : ℕ := n &&& 0xfffffffe

/-- A part of a spectrum: its first element and its length. -/
structure Slice where
  start : ℕ
  len : ℕ
  deriving DecidableEq

/-- The frequency of the first sample that is wanted, from the start of the tuned band on. -/
def startFreqHz (p : SpmRunParm) : ℕ := sub64 p.sFreqOffset (sub64 p.mFreqS (p.scanBw / 2))

/-- The number of elements, of `orderLen`, that lie in front of the piece. -/
def frontLen (p : SpmRunParm) (orderLen : ℕ) : ℕ :=
  orderLen * startFreqHz p % 2 ^ 64 / p.scanBw % 2 ^ 32

/-- The number of elements, of `orderLen`, that belong to the piece. -/
def pieceLen (p : SpmRunParm) (orderLen : ℕ) : ℕ :=
  orderLen * p.bandwidth % 2 ^ 64 / p.scanBw

/-- `spm_chip_data_order`: the slice of the data. -/
def spmChipDataOrder (p : SpmRunParm) (x : Spectrum) : Option Slice :=
  if x.samples = [] then none
  else
    let orderLen := evenLen (x.samples.length - 2 * x.singleSidebandSize)
    if p.bandwidth < p.scanBw then
      some ⟨x.singleSidebandSize + frontLen p orderLen, pieceLen p orderLen⟩
    else
      some ⟨x.singleSidebandSize, orderLen⟩

/-- The buffer of a channel: its elements, and how far `fft_ptr` is behind its start. -/
structure SpmBuffer where
  elems : ℕ → ℤ := fun _ => 0
  ptr : ℕ := 0

/-- `memcpy` of elements to a place of the buffer. -/
def SpmBuffer.write (b : SpmBuffer) (pos : ℕ) (xs : List ℤ) : SpmBuffer :=
  { b with elems := fun k => if pos ≤ k then xs.getD (k - pos) (b.elems k) else b.elems k }

/-- The trimmed spectrum at the pointer: the last elements, and then the first ones. -/
def SpmBuffer.writeTrimmed (b : SpmBuffer) (samples : List ℤ) (orderLen : ℕ) : SpmBuffer :=
  (b.write b.ptr ((samples.drop (samples.length - orderLen / 2)).take (orderLen / 2))).write
    (b.ptr + orderLen / 2) (samples.take (orderLen / 2))

/-- `spm_data_order`: the slice of the buffer, and the buffer behind the call. -/
def spmDataOrder (mode : WorkMode) (p : SpmRunParm) (x : Spectrum) (b : SpmBuffer) :
    Option Slice × SpmBuffer :=
  if x.samples = [] then (none, b)
  else
    let orderLen := evenLen x.orderLen
    let b := b.writeTrimmed x.samples orderLen
    if (mode = .fastScan ∨ mode = .multiZoneScan) ∧ p.bandwidth < p.scanBw then
      let b := { b with ptr := b.ptr + frontLen p orderLen }
      (some ⟨b.ptr, pieceLen p orderLen⟩, b)
    else
      (some ⟨b.ptr, orderLen⟩, b)

/-! ### Sweeps -/

/-- The run parameters of the first `fuel` steps of the loop of `executor_fragment_scan`. -/
def fragmentSteps (ops : SpmOps) (f : Fregment) (reset : ℕ → Bool) :
    ℕ → ℕ → ℕ → ℕ → ℕ → List SpmRunParm
  | 0, _, _, _, _ => []
  | fuel + 1, n, sFreqOffset, scanBw, index =>
      let r := ops.spmScan sFreqOffset f.endFreq scanBw
      stepParm ops f sFreqOffset scanBw index ::
        if reset n then []
        else if r.sFreqOffset < f.endFreq then
          fragmentSteps ops f reset fuel (n + 1) r.sFreqOffset r.scanBw ((index + 1) % 2 ^ 32)
        else []

/-- A sweep over a segment: its mode, the signalled resets, and the number of steps that are looked
at. -/
structure ScanSweep where
  mode : WorkMode
  fregment : Fregment
  reset : ℕ → Bool
  fuel : ℕ
  startFreq_lt : fregment.startFreq < 2 ^ 64
  endFreq_lt : fregment.endFreq < 2 ^ 64

/-- A step with its data; a step without data has no samples. -/
structure ScanCall where
  mode : WorkMode
  parm : SpmRunParm
  data : Spectrum

/-- The steps of a sweep. -/
def ScanSweep.steps (ops : SpmOps) (w : ScanSweep) : List (WorkMode × SpmRunParm) :=
  (fragmentSteps ops w.fregment w.reset w.fuel 0 w.fregment.startFreq w.fregment.scanBw 0).map
    (w.mode, ·)

/-- Any number of sweeps, of the same or of different segments, and the data of their steps. -/
structure ScanRun where
  sweeps : List ScanSweep
  data : ℕ → Spectrum

/-- The steps of a run. -/
def ScanRun.calls (ops : SpmOps) (run : ScanRun) : List ScanCall :=
  (run.sweeps.flatMap (ScanSweep.steps ops)).mapIdx fun i c => ⟨c.1, c.2, run.data i⟩

/-- The buffer behind some steps. -/
def bufferAfter (b : SpmBuffer) (cs : List ScanCall) : SpmBuffer :=
  cs.foldl (fun b c => (spmDataOrder c.mode c.parm c.data b).2) b

/-- Every slice of a run lies inside the spectrum: inside the data of the chip, and for the FPGA
inside the trimmed spectrum at the start of the buffer. -/
def SlicesInside (ops : SpmOps) (run : ScanRun) : Prop :=
  ∀ pre c post, run.calls ops = pre ++ c :: post →
    match ops with
    | .chip => ∀ s ∈ spmChipDataOrder c.parm c.data, s.start + s.len ≤ c.data.samples.length
    | .fpga => ∀ s ∈ (spmDataOrder c.mode c.parm c.data (bufferAfter {} pre)).1,
        s.start + s.len ≤ evenLen c.data.orderLen

/-! ### The bands of the pieces -/

/-- The slice of a step is a part of the spectrum only. -/
def ScanCall.IsCut (c : ScanCall) : Prop :=
  (c.mode = .fastScan ∨ c.mode = .multiZoneScan) ∧ c.parm.bandwidth < c.parm.scanBw

instance (c : ScanCall) : Decidable c.IsCut := inferInstanceAs (Decidable (_ ∧ _))

/-- The band in front of the piece of a step: half of what the piece leaves of the scan bandwidth,
or, where the center is held at `MAX_SCAN_FREQ_HZ`, what lies between the tuned band and the
piece. -/
def ScanCall.front (c : ScanCall) : ℕ :=
  if c.IsCut then
    if MAX_SCAN_FREQ_HZ < (c.parm.sFreqOffset + c.parm.bandwidth / 2) % 2 ^ 64 then
      c.parm.sFreqOffset - (MAX_SCAN_FREQ_HZ - fpgaScanBw / 2)
    else fpgaScanBw / 2 - c.parm.bandwidth / 2
  else 0

/-- The band that is sent of a step. -/
def ScanCall.width (c : ScanCall) : ℕ := if c.IsCut then c.parm.bandwidth else fpgaScanBw

/-- The share of a band in the trimmed spectrum of a step. -/
def ScanCall.share (c : ScanCall) (band : ℕ) : ℕ := evenLen c.data.orderLen * band / fpgaScanBw

/-- In each step the bands in front of the pieces so far, each with its share of its spectrum, leave
room in the spectrum for the piece. -/
def FitsBand (cs : List ScanCall) : Prop :=
  ∀ pre c post, cs = pre ++ c :: post → c.data.samples ≠ [] →
    ((pre ++ [c]).map fun c => c.share c.front).sum + c.share c.width ≤ evenLen c.data.orderLen

/-! ### Lengths -/

theorem evenLen_le (n : ℕ) : evenLen n ≤ n := Nat.and_le_left

theorem evenLen_lt (n : ℕ) : evenLen n < 2 ^ 32 :=
  Nat.lt_of_le_of_lt Nat.and_le_right (by decide)

/-- What is written at a place stands there. -/
theorem SpmBuffer.elems_write (b : SpmBuffer) (pos : ℕ) (xs : List ℤ) {i : ℕ} (hi : i < xs.length) :
    (b.write pos xs).elems (pos + i) = xs[i] := by
  rw [SpmBuffer.write]
  dsimp only
  rw [if_pos (Nat.le_add_right pos i), Nat.add_sub_cancel_left, List.getD_eq_getElem _ _ hi]

/-- What stands in front of the place is left as it is. -/
theorem SpmBuffer.elems_write_of_lt (b : SpmBuffer) {pos k : ℕ} (xs : List ℤ) (hk : k < pos) :
    (b.write pos xs).elems k = b.elems k :=
  if_neg (not_le.mpr hk)

/-- **The trimmed spectrum** in the buffer: the upper half of the samples that are kept, and then
the lower half. -/
theorem SpmBuffer.elems_writeTrimmed (b : SpmBuffer) {samples : List ℤ} {n : ℕ}
    (hn : n ≤ samples.length) :
    (∀ i (hi : i < n), (b.writeTrimmed samples (2 * n)).elems (b.ptr + i) =
        samples[samples.length - n + i]) ∧
      ∀ i (hi : i < n), (b.writeTrimmed samples (2 * n)).elems (b.ptr + (n + i)) = samples[i] := by
  have hhalf : 2 * n / 2 = n := Nat.mul_div_cancel_left n (by decide)
  have hupper : ((samples.drop (samples.length - n)).take n).length = n := by
    rw [List.length_take, List.length_drop]
    omega
  have hlower : (samples.take n).length = n := by
    rw [List.length_take]
    omega
  rw [SpmBuffer.writeTrimmed, hhalf]
  refine ⟨fun i hi => ?_, fun i hi => ?_⟩
  · rw [elems_write_of_lt _ _ (Nat.add_lt_add_left hi b.ptr),
      elems_write _ _ _ (hi.trans_eq hupper.symm), List.getElem_take, List.getElem_drop]
  · rw [← Nat.add_assoc, elems_write _ _ _ (hi.trans_eq hlower.symm), List.getElem_take]

theorem pieceLen_le {p : SpmRunParm} (h : p.bandwidth < p.scanBw) (n : ℕ) : pieceLen p n ≤ n := by
  have hle : n * p.bandwidth % 2 ^ 64 ≤ n * p.scanBw :=
    (Nat.mod_le _ _).trans (Nat.mul_le_mul_left n h.le)
  exact (Nat.div_le_div_right hle).trans_eq (Nat.mul_div_cancel n (Nat.zero_lt_of_lt h))

/-! ### The slices of the chip -/

/-- The chip is tuned so that the piece is at the start of the band. -/
theorem startFreqHz_chip (f : Fregment) (s scanBw index : ℕ) :
    startFreqHz (stepParm .chip f s scanBw index) = 0 := by
  have hparm : startFreqHz (stepParm .chip f s scanBw index) =
      sub64 s (sub64 ((s + scanBw / 2) % 2 ^ 64) (scanBw / 2)) := rfl
  rw [hparm, sub64, sub64]
  omega

/-- **The slices of the chip** lie inside the data, whatever the step. -/
theorem spmChipDataOrder_inside (f : Fregment) (s scanBw index : ℕ) (x : Spectrum) :
    ∀ sl ∈ spmChipDataOrder (stepParm .chip f s scanBw index) x,
      sl.start + sl.len ≤ x.samples.length := by
  intro sl hsl
  have htrim := x.sidebands_le
  have heven := evenLen_le (x.samples.length - 2 * x.singleSidebandSize)
  rw [spmChipDataOrder] at hsl
  split_ifs at hsl with hnull hcut
  · cases hsl
  · obtain rfl := Option.some.inj hsl
    have hpiece := pieceLen_le hcut (evenLen (x.samples.length - 2 * x.singleSidebandSize))
    have hfront : frontLen (stepParm .chip f s scanBw index)
        (evenLen (x.samples.length - 2 * x.singleSidebandSize)) = 0 := by
      rw [frontLen, startFreqHz_chip, Nat.mul_zero, Nat.zero_mod, Nat.zero_div, Nat.zero_mod]
    dsimp only
    omega
  · obtain rfl := Option.some.inj hsl
    dsimp only
    omega

/-! ### The steps of a run -/

theorem nextPiece_lt {s e bw : ℕ} (he : e < 2 ^ 64) : (nextPiece s e bw).1 < 2 ^ 64 := by
  rw [nextPiece]
  split_ifs
  · exact Nat.mod_lt _ (Nat.two_pow_pos 64)
  · exact he

/-- The steps that are looked at are those of the loop. -/
theorem steps_fragmentLoop {ops : SpmOps} {f : Fregment} {reset : ℕ → Bool}
    {fuel n s scanBw index : ℕ} {r : ScanResult}
    (h : fragmentLoop ops f reset fuel n s scanBw index = some r) :
    r.steps = fragmentSteps ops f reset fuel n s scanBw index := by
  induction fuel generalizing n s scanBw index r with
  | zero => cases h
  | succ fuel ih =>
    rw [fragmentLoop] at h
    rw [fragmentSteps]
    split_ifs at h ⊢ with hreset hmore
    · obtain rfl := Option.some.inj h
      rfl
    · obtain ⟨r, hr, rfl⟩ := Option.map_eq_some_iff.mp h
      exact congrArg (List.cons _) (ih hr)
    · obtain rfl := Option.some.inj h
      rfl

/-- Each step describes a piece at a 64-bit frequency. -/
theorem exists_of_mem_fragmentSteps {ops : SpmOps} {f : Fregment} {reset : ℕ → Bool}
    (he : f.endFreq < 2 ^ 64) {fuel n s scanBw index : ℕ} (hs : s < 2 ^ 64) {p : SpmRunParm}
    (hp : p ∈ fragmentSteps ops f reset fuel n s scanBw index) :
    ∃ s' < 2 ^ 64, ∃ scanBw' index', p = stepParm ops f s' scanBw' index' := by
  induction fuel generalizing n s scanBw index with
  | zero => cases hp
  | succ fuel ih =>
    rw [fragmentSteps, List.mem_cons] at hp
    rcases hp with rfl | hp
    · exact ⟨s, hs, scanBw, index, rfl⟩
    · split_ifs at hp with hreset hmore
      · cases hp
      · refine ih ?_ hp
        rw [(spmScan_next ops s f.endFreq scanBw).2.1]
        exact nextPiece_lt he
      · cases hp

/-- Each call of a run is the one of a step of a sweep. -/
theorem exists_of_mem_calls {ops : SpmOps} {run : ScanRun} {c : ScanCall}
    (hc : c ∈ run.calls ops) :
    ∃ f : Fregment, ∃ s < 2 ^ 64, ∃ scanBw index, c.parm = stepParm ops f s scanBw index := by
  rw [ScanRun.calls, List.mem_mapIdx] at hc
  obtain ⟨i, hi, rfl⟩ := hc
  have hmem := List.getElem_mem hi
  obtain ⟨w, -, hw⟩ := List.mem_flatMap.mp hmem
  obtain ⟨p, hp, heq⟩ := List.mem_map.mp hw
  obtain ⟨s, hs, scanBw, index, hparm⟩ :=
    exists_of_mem_fragmentSteps w.endFreq_lt w.startFreq_lt hp
  refine ⟨w.fregment, s, hs, scanBw, index, ?_⟩
  rw [← heq]
  exact hparm

/-! ### The slices of the FPGA -/

/-- A step of the FPGA is tuned to a band around the piece, unless that is above
`MAX_SCAN_FREQ_HZ`. -/
theorem startFreqHz_fpga {c : ScanCall} {f : Fregment} {s scanBw index : ℕ} (hs : s < 2 ^ 64)
    (hc : c.parm = stepParm .fpga f s scanBw index) (hcut : c.IsCut) :
    startFreqHz c.parm = c.front ∧ c.parm.scanBw = fpgaScanBw := by
  have hbw : c.parm.scanBw = fpgaScanBw := by rw [hc]; rfl
  have hlt : c.parm.bandwidth < fpgaScanBw := hbw ▸ hcut.2
  have hfpga : fpgaScanBw = 175000000 := rfl
  have hoff : c.parm.sFreqOffset = s := by rw [hc]; rfl
  have hm : c.parm.mFreqS = if MAX_SCAN_FREQ_HZ < (s + c.parm.bandwidth / 2) % 2 ^ 64
      then MAX_SCAN_FREQ_HZ else (s + c.parm.bandwidth / 2) % 2 ^ 64 := by
    rw [hc]
    rfl
  have hmax : MAX_SCAN_FREQ_HZ = 6000000000 := rfl
  refine ⟨?_, hbw⟩
  rw [startFreqHz, ScanCall.front, if_pos hcut, hbw, hoff, hm, sub64, sub64]
  split_ifs with hcap
  · omega
  · omega

/-- The call is the one of a step of the FPGA. -/
def ScanCall.IsFpga (c : ScanCall) : Prop :=
  ∃ f : Fregment, ∃ s < 2 ^ 64, ∃ scanBw index, c.parm = stepParm .fpga f s scanBw index

/-- The elements in front of the piece, if there are not too many to be counted. -/
theorem frontLen_eq {c : ScanCall} (hc : c.IsFpga) (hcut : c.IsCut)
    (hshare : c.share c.front < 2 ^ 32) :
    frontLen c.parm (evenLen c.data.orderLen) = c.share c.front := by
  obtain ⟨f, s, hs, scanBw, index, hparm⟩ := hc
  obtain ⟨hstart, hbw⟩ := startFreqHz_fpga hs hparm hcut
  have hlt : evenLen c.data.orderLen * c.front < 2 ^ 64 := by
    have hprod := (Nat.div_lt_iff_lt_mul (show 0 < fpgaScanBw by decide)).mp hshare
    exact hprod.trans (by decide)
  rw [frontLen, hstart, hbw, Nat.mod_eq_of_lt hlt]
  exact Nat.mod_eq_of_lt hshare

/-- The elements of the piece. -/
theorem pieceLen_eq {c : ScanCall} (hc : c.IsFpga) (hcut : c.IsCut) :
    pieceLen c.parm (evenLen c.data.orderLen) = c.share c.width := by
  obtain ⟨f, s, hs, scanBw, index, hparm⟩ := hc
  obtain ⟨-, hbw⟩ := startFreqHz_fpga hs hparm hcut
  have hwidth : c.parm.bandwidth < 2 ^ 32 := by
    refine hcut.2.trans ?_
    rw [hbw]
    decide
  have hlt : evenLen c.data.orderLen * c.parm.bandwidth < 2 ^ 64 :=
    (Nat.mul_lt_mul'' (evenLen_lt c.data.orderLen) hwidth).trans_eq (by decide)
  rw [pieceLen, hbw, Nat.mod_eq_of_lt hlt, ScanCall.share, ScanCall.width, if_pos hcut]

theorem share_fpgaScanBw (c : ScanCall) : c.share fpgaScanBw = evenLen c.data.orderLen :=
  Nat.mul_div_cancel _ (by decide)

/-- A call with data moves the pointer behind what is in front of the piece, and the slice starts
there. -/
theorem spmDataOrder_eq {c : ScanCall} (hc : c.IsFpga) (hdata : c.data.samples ≠ [])
    (hshare : c.share c.front < 2 ^ 32) (b : SpmBuffer) :
    (spmDataOrder c.mode c.parm c.data b).2.ptr = b.ptr + c.share c.front ∧
      (spmDataOrder c.mode c.parm c.data b).1 =
        some ⟨b.ptr + c.share c.front, c.share c.width⟩ := by
  rw [spmDataOrder, if_neg hdata]
  dsimp only
  by_cases hcut : (c.mode = .fastScan ∨ c.mode = .multiZoneScan) ∧
    c.parm.bandwidth < c.parm.scanBw
  · rw [if_pos hcut, frontLen_eq hc hcut hshare, pieceLen_eq hc hcut]
    exact ⟨rfl, rfl⟩
  · have hcut' : ¬ c.IsCut := hcut
    have hfront : c.share c.front = 0 := by
      rw [ScanCall.front, if_neg hcut', ScanCall.share, Nat.mul_zero, Nat.zero_div]
    rw [if_neg hcut, hfront, ScanCall.width, if_neg hcut', share_fpgaScanBw]
    exact ⟨rfl, rfl⟩

/-- **Where the pointer is** behind some steps: all that was in front of the pieces is added up. -/
theorem ptr_bufferAfter {cs : List ScanCall} (hcs : ∀ c ∈ cs, c.IsFpga)
    (hshare : ∀ c ∈ cs, c.share c.front < 2 ^ 32) (b : SpmBuffer) :
    (bufferAfter b cs).ptr = b.ptr + (cs.map fun c => c.share c.front).sum := by
  induction cs generalizing b with
  | nil => rfl
  | cons c cs ih =>
    obtain ⟨hc, hcs⟩ := List.forall_mem_cons.mp hcs
    obtain ⟨hsmall, hshare⟩ := List.forall_mem_cons.mp hshare
    have hstep : (spmDataOrder c.mode c.parm c.data b).2.ptr = b.ptr + c.share c.front := by
      by_cases hdata : c.data.samples = []
      · have hzero : c.share c.front = 0 := by
          have hlen := c.data.orderLen_le
          rw [hdata] at hlen
          rw [ScanCall.share, Nat.le_zero.mp ((evenLen_le _).trans hlen), Nat.zero_mul,
            Nat.zero_div]
        rw [spmDataOrder, if_pos hdata, hzero]
        rfl
      · exact (spmDataOrder_eq hc hdata hsmall b).1
    have hrest : bufferAfter b (c :: cs) =
        bufferAfter (spmDataOrder c.mode c.parm c.data b).2 cs := rfl
    rw [hrest, ih hcs hshare, hstep, List.map_cons, List.sum_cons, Nat.add_assoc]

/-- The slices of some steps of the FPGA, if no share is too large to be counted. -/
theorem inside_iff_fitsBand {cs : List ScanCall} (hcs : ∀ c ∈ cs, c.IsFpga)
    (hshare : ∀ c ∈ cs, c.share c.front < 2 ^ 32) :
    (∀ pre c post, cs = pre ++ c :: post →
        ∀ s ∈ (spmDataOrder c.mode c.parm c.data (bufferAfter {} pre)).1,
          s.start + s.len ≤ evenLen c.data.orderLen) ↔ FitsBand cs := by
  have hslice (pre : List ScanCall) (c : ScanCall) (post : List ScanCall)
      (hsplit : cs = pre ++ c :: post) (hdata : c.data.samples ≠ []) :
      (spmDataOrder c.mode c.parm c.data (bufferAfter {} pre)).1 =
        some ⟨((pre ++ [c]).map fun c => c.share c.front).sum, c.share c.width⟩ := by
    have hmem : c ∈ cs := hsplit ▸ List.mem_append_right _ List.mem_cons_self
    have hpre (d : ScanCall) (hd : d ∈ pre) : d ∈ cs := hsplit ▸ List.mem_append_left _ hd
    have hptr := ptr_bufferAfter (fun d hd => hcs d (hpre d hd))
      (fun d hd => hshare d (hpre d hd)) {}
    rw [(spmDataOrder_eq (hcs c hmem) hdata (hshare c hmem) _).2, hptr, List.map_append,
      List.sum_append, List.map_singleton, List.sum_singleton, Nat.zero_add]
  constructor
  · intro h pre c post hsplit hdata
    exact h pre c post hsplit _ (hslice pre c post hsplit hdata)
  · intro h pre c post hsplit s hs
    by_cases hdata : c.data.samples = []
    · rw [spmDataOrder, if_pos hdata] at hs
      cases hs
    · rw [hslice pre c post hsplit hdata] at hs
      obtain rfl := Option.some.inj hs
      exact h pre c post hsplit hdata

/-- Where the pieces fit, no share is too large. -/
theorem FitsBand.share_lt {cs : List ScanCall} (h : FitsBand cs) :
    ∀ c ∈ cs, c.share c.front < 2 ^ 32 := by
  intro c hc
  by_cases hdata : c.data.samples = []
  · have hlen := c.data.orderLen_le
    rw [hdata] at hlen
    rw [ScanCall.share, Nat.le_zero.mp ((evenLen_le _).trans hlen), Nat.zero_mul, Nat.zero_div]
    exact Nat.two_pow_pos 32
  · obtain ⟨pre, post, hsplit⟩ := List.append_of_mem hc
    have hfit := h pre c post hsplit hdata
    rw [List.map_append, List.sum_append, List.map_singleton, List.sum_singleton] at hfit
    exact Nat.lt_of_le_of_lt (by omega) (evenLen_lt c.data.orderLen)

/-! ### The slices of a run -/

/-- **The slices of a run** lie inside the spectrum for the chip, and for the FPGA if in each step
the bands in front of the pieces so far leave room for the piece. -/
theorem slicesInside_of_fitsBand (ops : SpmOps) (run : ScanRun)
    (h : ops = .fpga → FitsBand (run.calls .fpga)) : SlicesInside ops run := by
  cases ops with
  | chip =>
    intro pre c post hsplit
    have hmem : c ∈ run.calls .chip := hsplit ▸ List.mem_append_right _ List.mem_cons_self
    obtain ⟨f, s, -, scanBw, index, hparm⟩ := exists_of_mem_calls hmem
    dsimp only
    rw [hparm]
    exact spmChipDataOrder_inside f s scanBw index c.data
  | fpga =>
    have hfits := h rfl
    exact (inside_iff_fitsBand (fun c hc => exists_of_mem_calls hc) hfits.share_lt).mpr hfits

/-- Where the bands in front of the pieces are not wider than the scan bandwidth, the condition is
needed. -/
theorem fitsBand_of_slicesInside {run : ScanRun}
    (hfront : ∀ c ∈ run.calls .fpga, c.front ≤ fpgaScanBw) (h : SlicesInside .fpga run) :
    FitsBand (run.calls .fpga) := by
  refine (inside_iff_fitsBand (fun c hc => exists_of_mem_calls hc) fun c hc => ?_).mp h
  have hle : c.share c.front ≤ c.share fpgaScanBw :=
    Nat.div_le_div_right (Nat.mul_le_mul_left _ (hfront c hc))
  exact (hle.trans_eq (share_fpgaScanBw c)).trans_lt (evenLen_lt c.data.orderLen)

/-- Fifty elements of a spectrum of 64. -/
def narrowSpectrum : Spectrum where
  samples := List.replicate 64 1
  singleSidebandSize := 7
  orderLen := 50
  sidebands_le := by decide
  orderLen_le := by decide

/-- A sweep over 275 MHz, in two steps. -/
def narrowSweep : ScanSweep where
  mode := .fastScan
  fregment :=
    { fregmentNum := 0, startFreq := 100000000, endFreq := 375000000, scanBw := 175000000,
      totalFft := 0 }
  reset := fun _ => false
  fuel := 2
  startFreq_lt := by decide
  endFreq_lt := by decide

theorem slicesInside_of_fitsBand_narrow :
    SlicesInside .fpga ⟨[narrowSweep], fun _ => narrowSpectrum⟩ := by
  refine slicesInside_of_fitsBand .fpga _ fun _ => ?_
  rintro pre c post hsplit -
  obtain ⟨c₀, c₁, hcalls, hfirst, hsecond⟩ : ∃ c₀ c₁ : ScanCall,
      ScanRun.calls .fpga ⟨[narrowSweep], fun _ => narrowSpectrum⟩ = [c₀, c₁] ∧
      ([c₀].map fun c => c.share c.front).sum + c₀.share c₀.width ≤ evenLen c₀.data.orderLen ∧
      ([c₀, c₁].map fun c => c.share c.front).sum + c₁.share c₁.width ≤ evenLen c₁.data.orderLen :=
    ⟨_, _, rfl, by decide, by decide⟩
  rw [hcalls] at hsplit
  rcases pre with - | ⟨d, - | ⟨e, pre⟩⟩
  · obtain ⟨rfl, -⟩ := List.cons.inj hsplit
    exact hfirst
  · obtain ⟨rfl, hrest⟩ := List.cons.inj hsplit
    obtain ⟨rfl, -⟩ := List.cons.inj hrest
    exact hsecond
  · have hlen := congrArg List.length hsplit
    simp only [List.length_cons, List.length_append, List.length_nil] at hlen
    omega

/-- The pointer is behind the start of the buffer when the second sweep begins. -/
theorem not_slicesInside_twice :
    ¬ SlicesInside .fpga ⟨[narrowSweep, narrowSweep], fun _ => narrowSpectrum⟩ := by
  intro h
  have hslice := h [_, _] _ [_] rfl ⟨10, 50⟩ rfl
  exact absurd hslice (by decide)

end M57Card.Executor
