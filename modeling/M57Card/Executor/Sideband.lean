import M57Card.Executor.Analysis
import M57Card.Utils.MemoryPool

/-!
# Removing the sidebands

`specturm_analysis_deal_thread` (`spm_analysis.c`, lines 353–431) cuts the sidebands off the spectra
of a frame: `spectrum_sideband_deal_mm_pool` copies the middle of each block of a pool to a block of
another pool, whose blocks have the size of a whole spectrum. Then it sets the size of these blocks
to what it has copied, and the analysis reads the pool as one array. The size stays for the frames
after it, while the blocks of this frame were taken with the size before.

The lengths `rsb_fft_size` and `extra_data_single_size`, which the code computes with `float` rates,
are given with a frame.

## Main definitions

* `spectrumSidebandDealMmPool`, `dealFrame` : the model.
* `FftFrame` : the spectra of a frame, and the lengths of what is kept and of what is cut off.
* `Contiguous` : the analysis reads the middles of the spectra, one behind the other.

## Main results

* `sideband_deal` : the pool after the sidebands are removed.
* `blockSize_dealFrame`, `contiguous_of_same` : the size of the blocks after a frame, and what a
  frame with the same lengths gets.
* `contiguous_iff` : when the analysis reads one contiguous spectrum.
-/

namespace M57Card.Executor

/-! ### The model -/

/-- `spectrum_sideband_deal_mm_pool`. -/
def spectrumSidebandDealMmPool (fftmpool rsbFftmpool : MemoryPool)
    (extraDataSingleSize rsbFftSize : ℕ) : ℤ × MemoryPool :=
  if rsbFftSize > rsbFftmpool.blockSize / 4 then (-1, rsbFftmpool)
  else
    (0, (rsbFftmpool.writeBlocks fftmpool.pool (extraDataSingleSize * 4) fftmpool.blockSize
      (rsbFftSize * 4) fftmpool.rounds).setPoolStep (rsbFftSize * 4))

/-- The spectra of a frame: their number and their length, and the lengths of the middle that is
kept and of what is cut off in front of it. -/
structure FftFrame where
  used : ℕ
  fftSize : ℕ
  rsbFftSize : ℕ
  extraDataSingleSize : ℕ
  used_le : used ≤ SPECTRUM_MAX_SCAN_COUNT
  inside : extraDataSingleSize + rsbFftSize ≤ fftSize

/-- The pool with the spectra, as `spectrum_iq_convert_fft_store_mm_pool` has filled it. -/
def FftFrame.fftmpool (f : FftFrame) (data : Mem) : MemoryPool :=
  ⟨data, f.used * (f.fftSize * 4), f.used, f.fftSize * 4, SPECTRUM_MAX_SCAN_COUNT⟩

/-- The sidebands of a frame are removed. -/
def FftFrame.deal (f : FftFrame) (data : Mem) (rsbFftmpool : MemoryPool) : ℤ × MemoryPool :=
  spectrumSidebandDealMmPool (f.fftmpool data) rsbFftmpool f.extraDataSingleSize f.rsbFftSize

/-- The two kinds of spectra of a frame. -/
inductive FftKind
  | small
  | big

/-- `pool.fft_s_deal` and `pool.fft_b_deal`. -/
structure DealPools where
  small : MemoryPool
  big : MemoryPool

/-- The pool of a kind. -/
def DealPools.rsb (s : DealPools) : FftKind → MemoryPool
  | .small => s.small
  | .big => s.big

/-- `spm_analysis_init`, with the lengths of the spectra. -/
def DealPools.init (smallFftSize bigFftSize : ℕ) : DealPools where
  small := .create (smallFftSize * 4) SPECTRUM_MAX_SCAN_COUNT
  big := .create (bigFftSize * 4) SPECTRUM_MAX_SCAN_COUNT

/-- The spectra of both kinds in a frame. -/
structure AnalysisFrame where
  small : FftFrame
  big : FftFrame
  smallData : Mem
  bigData : Mem

/-- A round of `specturm_analysis_deal_thread`, up to the release of the pools. -/
def dealFrame (s : DealPools) (f : AnalysisFrame) : DealPools :=
  if (f.small.deal f.smallData s.small).1 = -1 then ⟨s.small.free, s.big.free⟩
  else ⟨(f.small.deal f.smallData s.small).2.free, (f.big.deal f.bigData s.big).2.free⟩

/-- When the sidebands are removed, the analysis reads the middles of the spectra, one behind the
other. -/
def Contiguous (f : FftFrame) (data : Mem) (rsbFftmpool : MemoryPool) : Prop :=
  (f.deal data rsbFftmpool).1 = 0 →
    (f.deal data rsbFftmpool).2.pool.slice 0 (f.used * (f.deal data rsbFftmpool).2.blockSize) =
      (List.range f.used).flatMap fun i =>
        data.slice (f.extraDataSingleSize * 4 + i * (f.fftSize * 4)) (f.rsbFftSize * 4)

/-! ### One pool -/

variable {f : FftFrame} {data : Mem} {mp : MemoryPool}

/-- The pool after the sidebands are removed: the middles stand there with the old size of a block
as stride, and the size is the length of a middle. -/
theorem sideband_deal (data : Mem) (hfresh : mp.Fresh) (hcount : mp.count = SPECTRUM_MAX_SCAN_COUNT)
    (hfit : f.rsbFftSize ≤ mp.blockSize / 4) :
    (f.deal data mp).1 = 0 ∧ (f.deal data mp).2.blockSize = f.rsbFftSize * 4 ∧
      ∀ q, (f.deal data mp).2.pool q =
        if q / mp.blockSize < f.used ∧ q % mp.blockSize < f.rsbFftSize * 4 then
          data (f.extraDataSingleSize * 4 + q / mp.blockSize * (f.fftSize * 4) + q % mp.blockSize)
        else mp.pool q := by
  rw [FftFrame.deal, spectrumSidebandDealMmPool, if_neg (not_lt.mpr hfit)]
  refine ⟨rfl, rfl, fun q => ?_⟩
  have hrounds : (f.fftmpool data).rounds ≤ mp.count := by
    have hle := f.used_le.trans_eq hcount.symm
    rw [MemoryPool.rounds]
    split_ifs
    · exact Nat.zero_le _
    · exact hle
  rw [hfresh.writeBlocks (by omega) hrounds]
  refine if_congr ?_ rfl rfl
  have hinside := f.inside
  rw [MemoryPool.rounds]
  change q / mp.blockSize < (if f.fftSize * 4 = 0 then 0 else f.used) ∧ _ ↔ _
  split_ifs with hzero <;> omega

/-- A middle that is longer than a block is refused. -/
theorem deal_of_lt (hlt : mp.blockSize / 4 < f.rsbFftSize) : f.deal data mp = (-1, mp) :=
  if_pos hlt

/-- Both kinds of pools between two frames. -/
structure DealPools.Fresh (s : DealPools) : Prop where
  small : s.small.Fresh
  big : s.big.Fresh
  small_count : s.small.count = SPECTRUM_MAX_SCAN_COUNT
  big_count : s.big.count = SPECTRUM_MAX_SCAN_COUNT

/-- For one pool: when, for all spectra, the analysis reads a contiguous spectrum. -/
theorem forall_contiguous_iff (hfresh : mp.Fresh) (hcount : mp.count = SPECTRUM_MAX_SCAN_COUNT) :
    (∀ data, Contiguous f data mp) ↔
      mp.blockSize / 4 < f.rsbFftSize ∨ f.used ≤ 1 ∨ f.rsbFftSize = 0 ∨
        f.rsbFftSize * 4 = mp.blockSize := by
  rcases Nat.lt_or_ge (mp.blockSize / 4) f.rsbFftSize with hlt | hfit
  · refine iff_of_true (fun data hret => ?_) (.inl hlt)
    rw [deal_of_lt hlt] at hret
    exact absurd (show (-1 : ℤ) = 0 from hret) (by decide)
  have hread (data : Mem) : Contiguous f data mp ↔ ∀ q < f.used * (f.rsbFftSize * 4),
      (if q / mp.blockSize < f.used ∧ q % mp.blockSize < f.rsbFftSize * 4 then
          data (f.extraDataSingleSize * 4 + q / mp.blockSize * (f.fftSize * 4) + q % mp.blockSize)
        else mp.pool q) =
        data (f.extraDataSingleSize * 4 + q / (f.rsbFftSize * 4) * (f.fftSize * 4) +
          q % (f.rsbFftSize * 4)) := by
    obtain ⟨hret, hsize, hpool⟩ := sideband_deal data hfresh hcount hfit
    rw [Contiguous, hret, hsize, Mem.flatMap_slice, Mem.slice, List.map_inj_left]
    simp only [List.mem_range, Nat.zero_add, hpool, true_imp_iff]
  simp only [hread]
  constructor
  · intro h
    by_contra hnot
    obtain ⟨-, hused, hpos, hne⟩ : ¬ _ ∧ ¬ f.used ≤ 1 ∧ ¬ f.rsbFftSize = 0 ∧
        ¬ f.rsbFftSize * 4 = mp.blockSize := by
      simpa only [not_or] using hnot
    -- the byte behind the first middle is not written
    obtain ⟨b, hb⟩ : ∃ b : UInt8, b ≠ mp.pool (f.rsbFftSize * 4) := by
      by_cases hzero : mp.pool (f.rsbFftSize * 4) = 0
      · exact ⟨1, by rw [hzero]; decide⟩
      · exact ⟨0, Ne.symm hzero⟩
    have hlt : f.rsbFftSize * 4 < f.used * (f.rsbFftSize * 4) :=
      lt_mul_left (by omega) (by omega)
    have hgap := h (fun _ => b) (f.rsbFftSize * 4) hlt
    rw [if_neg (by rw [Nat.mod_eq_of_lt (by omega)]; omega)] at hgap
    exact hb hgap.symm
  · intro h data q hq
    obtain hlt | hone | hzero | heq := h
    · exact absurd hlt (not_lt.mpr hfit)
    · have hk : f.used = 1 := by
        by_contra hne
        rw [show f.used = 0 by omega, Nat.zero_mul] at hq
        exact absurd hq (Nat.not_lt_zero q)
      rw [hk, Nat.one_mul] at hq
      rw [hk, Nat.div_eq_of_lt (show q < mp.blockSize by omega),
        Nat.mod_eq_of_lt (show q < mp.blockSize by omega), Nat.div_eq_of_lt hq, Nat.mod_eq_of_lt hq,
        if_pos ⟨Nat.one_pos, hq⟩]
    · rw [hzero, Nat.zero_mul, Nat.mul_zero] at hq
      exact absurd hq (Nat.not_lt_zero q)
    · rw [heq] at hq ⊢
      have hsize : 0 < mp.blockSize := Nat.pos_of_ne_zero fun h0 => by
        rw [h0, Nat.mul_zero] at hq
        exact absurd hq (Nat.not_lt_zero q)
      rw [if_pos ⟨(Nat.div_lt_iff_lt_mul hsize).mpr hq, Nat.mod_lt q hsize⟩]

/-! ### Frames -/

theorem fresh_init (smallFftSize bigFftSize : ℕ) :
    (DealPools.init smallFftSize bigFftSize).Fresh :=
  ⟨MemoryPool.fresh_create _ _, MemoryPool.fresh_create _ _, rfl, rfl⟩

theorem count_deal (f : FftFrame) (data : Mem) (mp : MemoryPool) :
    (f.deal data mp).2.count = mp.count := by
  rw [FftFrame.deal, spectrumSidebandDealMmPool]
  split_ifs
  · rfl
  · exact mp.count_writeBlocks _ _ _ _ _

/-- A frame leaves both pools free, whether the sidebands are removed or not. -/
theorem DealPools.Fresh.dealFrame {s : DealPools} (h : s.Fresh) (f : AnalysisFrame) :
    (dealFrame s f).Fresh := by
  unfold Executor.dealFrame
  split_ifs
  · exact ⟨MemoryPool.fresh_free _, MemoryPool.fresh_free _, h.small_count, h.big_count⟩
  · exact ⟨MemoryPool.fresh_free _, MemoryPool.fresh_free _,
      (count_deal _ _ _).trans h.small_count, (count_deal _ _ _).trans h.big_count⟩

theorem DealPools.Fresh.foldl {s : DealPools} (h : s.Fresh) (frames : List AnalysisFrame) :
    (frames.foldl Executor.dealFrame s).Fresh := by
  induction frames generalizing s with
  | nil => exact h
  | cons f frames ih => exact ih (h.dealFrame f)

theorem DealPools.Fresh.rsb {s : DealPools} (h : s.Fresh) (kind : FftKind) :
    (s.rsb kind).Fresh ∧ (s.rsb kind).count = SPECTRUM_MAX_SCAN_COUNT := by
  cases kind with
  | small => exact ⟨h.small, h.small_count⟩
  | big => exact ⟨h.big, h.big_count⟩

/-- The size of a block of the small pool after a frame is what the frame has kept of a spectrum; a
frame that is refused leaves the sizes as they are. -/
theorem blockSize_dealFrame {s : DealPools} (h : s.Fresh) (f : AnalysisFrame) :
    ((dealFrame s f).rsb .small).blockSize =
      if s.small.blockSize / 4 < f.small.rsbFftSize then s.small.blockSize
      else f.small.rsbFftSize * 4 := by
  rw [dealFrame]
  split_ifs with hret hlt hfit
  · rfl
  · rw [(sideband_deal _ h.small h.small_count (not_lt.mp hlt)).1] at hret
    exact absurd hret (by decide)
  · rw [deal_of_lt hfit] at hret
    exact absurd rfl hret
  · exact (sideband_deal _ h.small h.small_count (not_lt.mp hfit)).2.1

/-- A frame that keeps as much of a spectrum as the accepted frame before it is read contiguously.
-/
theorem contiguous_of_same {s : DealPools} (h : s.Fresh) {g : AnalysisFrame} {f : FftFrame}
    (hsame : f.rsbFftSize = g.small.rsbFftSize)
    (hfit : g.small.rsbFftSize ≤ s.small.blockSize / 4) (data : Mem) :
    Contiguous f data ((dealFrame s g).rsb .small) := by
  obtain ⟨hfresh, hcount⟩ := (h.dealFrame g).rsb .small
  refine (forall_contiguous_iff hfresh hcount).mpr (.inr (.inr (.inr ?_))) data
  rw [blockSize_dealFrame h, if_neg (not_lt.mpr hfit), hsame]

/-- In a frame, after any frames before it, the analysis reads the middles of all spectra as one
contiguous spectrum exactly if the frame is refused, has one spectrum at most, keeps nothing, or
keeps of a spectrum as much as the size of a block is before it. -/
theorem contiguous_iff (smallFftSize bigFftSize : ℕ) (frames : List AnalysisFrame) (kind : FftKind)
    (f : FftFrame) :
    (∀ data, Contiguous f data
        ((frames.foldl dealFrame (.init smallFftSize bigFftSize)).rsb kind)) ↔
      ((frames.foldl dealFrame (.init smallFftSize bigFftSize)).rsb kind).blockSize / 4 <
          f.rsbFftSize ∨ f.used ≤ 1 ∨ f.rsbFftSize = 0 ∨
        f.rsbFftSize * 4 =
          ((frames.foldl dealFrame (.init smallFftSize bigFftSize)).rsb kind).blockSize := by
  obtain ⟨hfresh, hcount⟩ := ((fresh_init smallFftSize bigFftSize).foldl frames).rsb kind
  exact forall_contiguous_iff hfresh hcount

/-- Two small spectra of which 1600 points are kept, for the side band rate 1.28. -/
def twoSpectra : FftFrame where
  used := 2
  fftSize := 2048
  rsbFftSize := 1600
  extraDataSingleSize := 224
  used_le := by decide
  inside := by decide

/-- In the first frame the analysis reads the middle of the first spectrum and then the gap behind
it. -/
theorem not_contiguous_first :
    ¬ ∀ (smallFftSize bigFftSize : ℕ) (frames : List AnalysisFrame) (kind : FftKind) (f : FftFrame)
      (data : Mem), Contiguous f data
        ((frames.foldl dealFrame (.init smallFftSize bigFftSize)).rsb kind) := by
  intro h
  have hfirst := h 2048 65536 [] .small twoSpectra
  have hstart := (fresh_init 2048 65536).small
  obtain hlt | hone | hzero | heq := (forall_contiguous_iff hstart rfl).mp hfirst
  · exact absurd hlt (by decide)
  · exact absurd hone (by decide)
  · exact absurd hzero (by decide)
  · exact absurd heq (by decide)

end M57Card.Executor
