import Mathlib.Algebra.Order.Ring.Int
import Mathlib.Data.List.DropRight
import Mathlib.Data.List.ReduceOption

/-!
# Smoothing of spectra

`spm_chip_read_fft_data_smooth` (`spm_chip.c`, lines 290–357) averages the last `smooth` frames of
each segment and step. The frames are kept in a row of slots: a new frame is shifted in at the end
of the first `smooth` slots (`_shift_add_tail`), and the average of the slots with a frame
(`_vector_avg`) is written over the first of these frames. As long as the window is not full that
frame stays in it, and takes part in the next averages with what was written over it.

The samples of a frame have 16 bits, so that their sums do not wrap; they are integers here. The
slots are changed by the reads only: what a caller does with the slot that a read returns, for which
it gets the pointer, is not part of this file.

## Main definitions

* `vectorAvg`, `shiftAddTail`, `Smoother`, `spmChipReadFftDataSmooth` : the model.
* `held` : the frames in the slots, without the empty slots.
* `IsMovingAverage` : the output of a read is the mean of the positive samples of the window.

## Main results

* `row_readAll` : the slots hold `held`.
* `push_held` : when the window has the frames as they were read.
* `isMovingAverage_iff` : which outputs are moving averages.
-/

namespace M57Card.Executor

/-! ### The model -/

/-- `_MAX_SMOOTH_NUM`. -/
def MAX_SMOOTH_NUM : ℕ := 256

/-- `_MAX_BW_NUM`. -/
def MAX_BW_NUM : ℕ := 256

/-- `_MAX_FREGMENT_NUM`. -/
def MAX_FREGMENT_NUM : ℕ := 10

/-- The positive samples at a bin of some frames. -/
def positives (fs : List (List ℤ)) (j : ℕ) : List ℤ :=
  (fs.filterMap fun f => f[j]?).filter fun x => decide (0 < x)

/-- The mean of some samples, without the fraction. -/
def mean (xs : List ℤ) : ℤ := xs.sum / xs.length

/-- The first frame `first` of the frames `fs`, with the averages of the first `x` bins written over
it; a bin without positive samples is left as it is. -/
def averageOver (fs : List (List ℤ)) (x : ℕ) (first : List ℤ) : List ℤ :=
  first.mapIdx fun j a => if j < x ∧ positives fs j ≠ [] then mean (positives fs j) else a

/-- The first slot with a frame gets another frame. -/
def setFirst (frame : List ℤ) : List (Option (List ℤ)) → List (Option (List ℤ))
  | [] => []
  | none :: slots => none :: setFirst frame slots
  | some _ :: slots => some frame :: slots

/-- `_vector_avg`: the average of the slots, and the slots with the average in them. -/
def vectorAvg (slots : List (Option (List ℤ))) :
    Option (List ℤ × List (Option (List ℤ))) :=
  match slots.reduceOption with
  | [] => none
  | first :: fs =>
      let x := ((fs.map List.length).filter fun n => decide (0 < n)).foldl min first.length
      if x = 0 then none
      else
        let avg := averageOver (first :: fs) x first
        some (avg.take x, setFirst avg slots)

/-- `_shift_add_tail`: a frame is shifted in at the end of the first `n` slots. -/
def shiftAddTail (row : List (Option (List ℤ))) (n : ℕ) (frame : List ℤ) :
    List (Option (List ℤ)) :=
  if n = 0 then row else (row.take n).tail ++ some frame :: row.drop n

/-- The state of the smoothing: `_smooth_time`, `_flush_trigger`, `is_initialized` and the slots of
each segment and step. -/
structure Smoother where
  smooth : ℤ
  flushTrigger : Bool := false
  isInitialized : Bool := false
  vfft : ℕ → ℕ → List (Option (List ℤ)) := fun _ _ => List.replicate MAX_SMOOTH_NUM none

/-- The slots are emptied at the first read, and when that is triggered. -/
def Smoother.flush (st : Smoother) : Smoother :=
  if st.isInitialized = false ∨ st.flushTrigger = true then
    { st with
      flushTrigger := false
      isInitialized := true
      vfft := fun _ _ => List.replicate MAX_SMOOTH_NUM none }
  else st

/-- The slots of a segment and a step are replaced. -/
def Smoother.setRow (st : Smoother) (f i : ℕ) (row : List (Option (List ℤ))) : Smoother :=
  { st with vfft := Function.update st.vfft f (Function.update (st.vfft f) i row) }

/-- `spm_chip_read_fft_data_smooth`: the data, or an error, and the state behind the read. `raw` is
what `spm_chip_read_fft_data` reads. -/
def spmChipReadFftDataSmooth (raw : Option (List ℤ)) (fregNum index : ℕ) (st : Smoother) :
    Option (List ℤ) × Smoother :=
  if st.smooth ≤ 1 then (raw, st)
  else
    let st := st.flush
    if MAX_BW_NUM ≤ index then (none, st)
    else if MAX_SMOOTH_NUM ≤ st.smooth then (none, st)
    else
      let f := if MAX_FREGMENT_NUM ≤ fregNum then MAX_FREGMENT_NUM - 1 else fregNum
      match raw with
      | none => (none, st)
      | some frame =>
          let n := st.smooth.toNat
          let row := shiftAddTail (st.vfft f index) n frame
          match vectorAvg (row.take n) with
          | none => (none, st.setRow f index row)
          | some (out, slots) => (some out, st.setRow f index (slots ++ row.drop n))

/-! ### Runs -/

/-- A read of a frame of a segment and a step within the table. -/
structure SmoothRead where
  fregNum : ℕ
  index : ℕ
  frame : List ℤ
  fregNum_lt : fregNum < MAX_FREGMENT_NUM
  index_lt : index < MAX_BW_NUM

/-- What a read gives back, and the state behind it. -/
def SmoothRead.run (r : SmoothRead) (st : Smoother) : Option (List ℤ) × Smoother :=
  spmChipReadFftDataSmooth (some r.frame) r.fregNum r.index st

/-- The state behind some reads. -/
def readAll (st : Smoother) (rs : List SmoothRead) : Smoother :=
  rs.foldl (fun st r => (r.run st).2) st

/-- The frames of a segment and a step, in the order in which they were read. -/
def framesOf (f i : ℕ) (rs : List SmoothRead) : List (List ℤ) :=
  (rs.filter fun r => decide (r.fregNum = f ∧ r.index = i)).map SmoothRead.frame

/-- The slots are going to be emptied, and the window is of `s` frames. -/
def AtFlush (s : ℕ) (st : Smoother) : Prop :=
  st.smooth = s ∧ (st.isInitialized = false ∨ st.flushTrigger = true)

/-- The output of the read `r` behind the reads `rs` has at each bin the mean of the positive
samples among the last `s` frames of its segment and step, if there are any. -/
def IsMovingAverage (s len : ℕ) (st : Smoother) (rs : List SmoothRead) (r : SmoothRead) : Prop :=
  ∃ out, (r.run (readAll st rs)).1 = some out ∧ out.length = len ∧
    ∀ j, positives ((framesOf r.fregNum r.index (rs ++ [r])).rtake s) j ≠ [] →
      out[j]? = some (mean (positives ((framesOf r.fregNum r.index (rs ++ [r])).rtake s) j))

/-! ### The window of frames -/

/-- The first frame of a window gets the averages written over it. -/
def averageFirst (len : ℕ) : List (List ℤ) → List (List ℤ)
  | [] => []
  | first :: fs => averageOver (first :: fs) len first :: fs

/-- A frame enters a window of `s` frames. -/
def push (s : ℕ) (w : List (List ℤ)) (frame : List ℤ) : List (List ℤ) := (w ++ [frame]).rtake s

/-- The frames in the slots behind some frames. -/
def held (s len : ℕ) (fs : List (List ℤ)) : List (List ℤ) :=
  fs.foldl (fun w frame => averageFirst len (push s w frame)) []

section Window

variable {s len : ℕ} {w fs : List (List ℤ)} {frame : List ℤ}

theorem held_concat (s len : ℕ) (fs : List (List ℤ)) (frame : List ℤ) :
    held s len (fs ++ [frame]) = averageFirst len (push s (held s len fs) frame) := by
  rw [held, List.foldl_append]
  rfl

theorem push_of_lt (h : w.length < s) : push s w frame = w ++ [frame] := by
  have hdrop : (w ++ [frame]).length - s = 0 := by
    rw [List.length_append, List.length_singleton]
    omega
  rw [push, List.rtake, hdrop, List.drop_zero]

theorem push_of_eq (hpos : 0 < s) (h : w.length = s) : push s w frame = w.tail ++ [frame] := by
  have hdrop : (w ++ [frame]).length - s = 1 := by
    rw [List.length_append, List.length_singleton]
    omega
  rw [push, List.rtake, hdrop, List.drop_append_of_le_length (by omega), List.drop_one]

theorem length_averageFirst (len : ℕ) (w : List (List ℤ)) :
    (averageFirst len w).length = w.length := by
  cases w with
  | nil => rfl
  | cons first fs => rfl

theorem tail_averageFirst (len : ℕ) (w : List (List ℤ)) : (averageFirst len w).tail = w.tail := by
  cases w with
  | nil => rfl
  | cons first fs => rfl

theorem length_push (hpos : 0 < s) (h : w.length ≤ s) :
    (push s w frame).length = min s (w.length + 1) := by
  rcases h.lt_or_eq with hlt | heq
  · rw [push_of_lt hlt, List.length_append, List.length_singleton]
    omega
  · rw [push_of_eq hpos heq, List.length_append, List.length_tail, List.length_singleton]
    omega

theorem length_held (hpos : 0 < s) (len : ℕ) (fs : List (List ℤ)) :
    (held s len fs).length = min s fs.length := by
  induction fs using List.reverseRecOn with
  | nil => exact (Nat.min_zero s).symm
  | append_singleton fs frame ih =>
    rw [held_concat, length_averageFirst, length_push hpos (by omega), ih, List.length_append,
      List.length_singleton]
    omega

theorem length_averageOver (fs : List (List ℤ)) (x : ℕ) (first : List ℤ) :
    (averageOver fs x first).length = first.length := List.length_mapIdx

/-- The frames that are held are as long as those that were read. -/
theorem length_of_mem_held (hfs : ∀ f ∈ fs, f.length = len) :
    ∀ f ∈ held s len fs, f.length = len := by
  induction fs using List.reverseRecOn with
  | nil => exact fun f hf => absurd hf List.not_mem_nil
  | append_singleton fs frame ih =>
    obtain ⟨hold, hframe⟩ := List.forall_mem_append.mp hfs
    have hpush : ∀ f ∈ push s (held s len fs) frame, f.length = len := by
      rintro f hf
      rcases List.mem_append.mp (List.mem_of_mem_drop hf) with hf | hf
      · exact ih hold f hf
      · exact hframe f hf
    rw [held_concat]
    generalize push s (held s len fs) frame = w at hpush
    cases w with
    | nil => exact hpush
    | cons first fs =>
      obtain ⟨hfirst, hrest⟩ := List.forall_mem_cons.mp hpush
      exact List.forall_mem_cons.mpr ⟨(length_averageOver _ _ _).trans hfirst, hrest⟩

end Window

/-! ### The slots hold the window -/

section Slots

variable {s len : ℕ} {w : List (List ℤ)} {row : List (Option (List ℤ))} {frame : List ℤ}

/-- The first `s` slots of a row have the frames `w` at their end. -/
def RowHolds (s : ℕ) (w : List (List ℤ)) (row : List (Option (List ℤ))) : Prop :=
  s ≤ row.length ∧ row.take s = List.replicate (s - w.length) none ++ w.map some

/-- Shifting a frame in pushes it into the window. -/
theorem RowHolds.shiftAddTail (h : RowHolds s w row) (hpos : 0 < s) (hw : w.length ≤ s)
    (frame : List ℤ) : RowHolds s (push s w frame) (shiftAddTail row s frame) := by
  obtain ⟨hlen, htake⟩ := h
  have hrow : Executor.shiftAddTail row s frame =
      ((row.take s).tail ++ [some frame]) ++ row.drop s := by
    rw [Executor.shiftAddTail, if_neg hpos.ne', List.append_assoc, List.singleton_append]
  have hwindow : ((row.take s).tail ++ [some frame]).length = s := by
    rw [List.length_append, List.length_tail, List.length_take, List.length_singleton]
    omega
  have htail : (row.take s).tail ++ [some frame] =
      List.replicate (s - (push s w frame).length) none ++ (push s w frame).map some := by
    rw [htake, length_push hpos hw]
    rcases hw.lt_or_eq with hlt | heq
    · obtain ⟨k, hk⟩ := Nat.exists_eq_add_of_lt hlt
      have hempty : s - w.length = k + 1 := by omega
      have hrest : s - min s (w.length + 1) = k := by omega
      rw [push_of_lt hlt, hempty, hrest, List.replicate_succ, List.cons_append, List.tail_cons,
        List.append_assoc, List.map_append, List.map_singleton]
    · have hfull : s - w.length = 0 := by omega
      have hrest : s - min s (w.length + 1) = 0 := by omega
      rw [push_of_eq hpos heq, hfull, hrest, List.replicate_zero, List.nil_append, List.nil_append,
        List.map_append, List.map_tail, List.map_singleton]
  refine ⟨?_, ?_⟩
  · rw [hrow, List.length_append, hwindow]
    exact Nat.le_add_right s _
  · rw [hrow, List.take_append_of_le_length hwindow.ge, List.take_of_length_le hwindow.le, htail]

/-- The slots of a window behind the average of its first frame. -/
theorem RowHolds.averageFirst (h : RowHolds s w row) (len : ℕ) :
    RowHolds s (averageFirst len w)
      ((List.replicate (s - w.length) none ++ (averageFirst len w).map some) ++ row.drop s) := by
  have hfull : (List.replicate (s - w.length) none ++
      (Executor.averageFirst len w).map some).length = s := by
    have htake := congrArg List.length h.2
    rw [List.length_take, Nat.min_eq_left h.1, List.length_append, List.length_map] at htake
    rw [List.length_append, List.length_map, length_averageFirst]
    exact htake.symm
  refine ⟨?_, ?_⟩
  · rw [List.length_append, hfull]
    exact Nat.le_add_right s _
  · rw [List.take_append_of_le_length hfull.ge, List.take_of_length_le hfull.le,
      length_averageFirst]

theorem setFirst_replicate_append (m : ℕ) (first avg : List ℤ) (slots : List (Option (List ℤ))) :
    setFirst avg (List.replicate m none ++ some first :: slots) =
      List.replicate m none ++ some avg :: slots := by
  induction m with
  | zero => rfl
  | succ m ih =>
    rw [List.replicate_succ, List.cons_append, setFirst, ih, List.cons_append]

/-- The smallest of equal lengths. -/
theorem foldl_min_length {fs : List (List ℤ)} (h : ∀ f ∈ fs, f.length = len) (hpos : 0 < len) :
    ((fs.map List.length).filter fun n => decide (0 < n)).foldl min len = len := by
  induction fs with
  | nil => rfl
  | cons f fs ih =>
    obtain ⟨hf, hfs⟩ := List.forall_mem_cons.mp h
    rw [List.map_cons, hf, List.filter_cons, if_pos (decide_eq_true hpos), List.foldl_cons,
      Nat.min_self]
    exact ih hfs

/-- The average of the slots is that of the window, and is written over its first frame. -/
theorem vectorAvg_eq (m : ℕ) {first : List ℤ} {fs : List (List ℤ)}
    (hlen : ∀ f ∈ first :: fs, f.length = len) (hpos : 0 < len) :
    vectorAvg (List.replicate m none ++ (first :: fs).map some) =
      some (averageOver (first :: fs) len first,
        List.replicate m none ++ (averageFirst len (first :: fs)).map some) := by
  obtain ⟨hfirst, hfs⟩ := List.forall_mem_cons.mp hlen
  have hreduce : (List.replicate m none ++ (first :: fs).map some).reduceOption = first :: fs := by
    rw [List.reduceOption_append, List.reduceOption_replicate_none, List.nil_append]
    exact List.filterMap_map.trans List.filterMap_some
  have hmin := foldl_min_length hfs hpos
  rw [vectorAvg, hreduce]
  dsimp only
  rw [hfirst, hmin, if_neg hpos.ne', List.map_cons, setFirst_replicate_append,
    List.take_of_length_le (by rw [length_averageOver, hfirst])]
  rfl

end Slots

section Reads

variable {s len : ℕ} {st : Smoother} {rs : List SmoothRead} {r : SmoothRead}

/-- The window of the next read of a segment and a step, when it is pushed. -/
def nextWindow (s len : ℕ) (rs : List SmoothRead) (r : SmoothRead) : List (List ℤ) :=
  push s (held s len (framesOf r.fregNum r.index rs)) r.frame

/-- The slots behind some reads hold the windows. -/
def Holds (s len : ℕ) (rs : List SmoothRead) (st : Smoother) : Prop :=
  st.smooth = s ∧ ∀ f i, RowHolds s (held s len (framesOf f i rs)) (st.flush.vfft f i)

theorem framesOf_concat_self (rs : List SmoothRead) (r : SmoothRead) :
    framesOf r.fregNum r.index (rs ++ [r]) = framesOf r.fregNum r.index rs ++ [r.frame] := by
  rw [framesOf, List.filter_append, List.map_append, List.filter_cons_of_pos (by simp)]
  rfl

theorem framesOf_concat_of_ne {f i : ℕ} (h : ¬ (r.fregNum = f ∧ r.index = i)) :
    framesOf f i (rs ++ [r]) = framesOf f i rs := by
  rw [framesOf, List.filter_append, List.filter_cons_of_neg (by simpa using h), List.filter_nil,
    List.append_nil]
  rfl

theorem Smoother.flush_of_initialized (h : st.isInitialized = true) (h' : st.flushTrigger = false) :
    st.flush = st := by
  rw [Smoother.flush, if_neg (by rw [h, h']; decide)]

theorem Smoother.setRow_self (st : Smoother) (f i : ℕ) (row : List (Option (List ℤ))) :
    (st.setRow f i row).vfft f i = row := by
  rw [Smoother.setRow]
  dsimp only
  rw [Function.update_self, Function.update_self]

theorem Smoother.setRow_of_ne (st : Smoother) {f i f' i' : ℕ} (h : ¬ (f = f' ∧ i = i'))
    (row : List (Option (List ℤ))) : (st.setRow f i row).vfft f' i' = st.vfft f' i' := by
  rw [Smoother.setRow]
  dsimp only
  by_cases hf : f' = f
  · obtain rfl := hf
    rw [Function.update_self, Function.update_of_ne fun hi => h ⟨rfl, hi.symm⟩]
  · rw [Function.update_of_ne hf]

theorem Smoother.flush_spec (st : Smoother) :
    st.flush.isInitialized = true ∧ st.flush.flushTrigger = false ∧
      st.flush.smooth = st.smooth := by
  rw [Smoother.flush]
  split_ifs with h
  · exact ⟨rfl, rfl, rfl⟩
  · rw [not_or, Bool.not_eq_false, Bool.not_eq_true] at h
    exact ⟨h.1, h.2, rfl⟩

/-- Just before the slots are emptied, all windows are empty. -/
theorem AtFlush.holds (h : AtFlush s st) (hs : s < MAX_SMOOTH_NUM) (len : ℕ) :
    Holds s len [] st := by
  refine ⟨h.1, fun f i => ?_⟩
  have hrow : st.flush.vfft f i = List.replicate MAX_SMOOTH_NUM none := by
    rw [Smoother.flush, if_pos h.2]
  rw [hrow]
  refine ⟨?_, ?_⟩
  · rw [List.length_replicate]
    exact hs.le
  · have hnil : held s len (framesOf f i []) = [] := rfl
    rw [List.take_replicate, Nat.min_eq_left hs.le, hnil]
    exact (List.append_nil _).symm

theorem length_of_mem_framesOf (hlen : ∀ q ∈ rs, q.frame.length = len) (f i : ℕ) :
    ∀ x ∈ framesOf f i rs, x.length = len := by
  rintro x hx
  obtain ⟨q, hq, rfl⟩ := List.mem_map.mp hx
  exact hlen q (List.mem_of_mem_filter hq)

/-- What a read returns, and the slots behind it. -/
theorem SmoothRead.run_eq {first : List ℤ} {fs : List (List ℤ)} (hsmooth : st.smooth = s)
    (hs : 2 ≤ s) (hmax : s < MAX_SMOOTH_NUM) (hpos : 0 < len)
    (hmem : ∀ f ∈ first :: fs, f.length = len)
    (hrow : RowHolds s (first :: fs)
      (shiftAddTail (st.flush.vfft r.fregNum r.index) s r.frame)) :
    r.run st = (some (averageOver (first :: fs) len first),
      st.flush.setRow r.fregNum r.index
        ((List.replicate (s - (first :: fs).length) none ++
          (averageFirst len (first :: fs)).map some) ++
            (shiftAddTail (st.flush.vfft r.fregNum r.index) s r.frame).drop s)) := by
  obtain ⟨-, -, hflush⟩ := st.flush_spec
  have hone : ¬ st.smooth ≤ 1 := by omega
  have hindex : ¬ MAX_BW_NUM ≤ r.index := not_le.mpr r.index_lt
  have hfreg : ¬ MAX_FREGMENT_NUM ≤ r.fregNum := not_le.mpr r.fregNum_lt
  have htoNat : st.flush.smooth.toNat = s := by rw [hflush, hsmooth, Int.toNat_natCast]
  have hfits : ¬ (MAX_SMOOTH_NUM : ℤ) ≤ st.flush.smooth := by
    rw [hflush, hsmooth]
    omega
  rw [SmoothRead.run, spmChipReadFftDataSmooth, if_neg hone]
  dsimp only
  rw [if_neg hindex, if_neg hfits, if_neg hfreg, htoNat, hrow.2, vectorAvg_eq _ hmem hpos]

/-- **One read**: the average of the window of its segment and step, and nothing changes for the
others. -/
theorem Holds.run (h : Holds s len rs st) (hs : 2 ≤ s) (hmax : s < MAX_SMOOTH_NUM) (hpos : 0 < len)
    (hlen : ∀ q ∈ rs ++ [r], q.frame.length = len) :
    (∃ first fs, nextWindow s len rs r = first :: fs ∧
        (r.run st).1 = some (averageOver (first :: fs) len first)) ∧
      Holds s len (rs ++ [r]) (r.run st).2 := by
  obtain ⟨hsmooth, hrows⟩ := h
  obtain ⟨hinit, htrigger, hflush⟩ := st.flush_spec
  have hspos : 0 < s := by omega
  have hheld := length_held hspos len (framesOf r.fregNum r.index rs)
  have hrow := (hrows r.fregNum r.index).shiftAddTail hspos (by omega) r.frame
  have hmem : ∀ f ∈ nextWindow s len rs r, f.length = len := by
    rintro f hf
    rcases List.mem_append.mp (List.mem_of_mem_drop hf) with hf | hf
    · exact length_of_mem_held (length_of_mem_framesOf (List.forall_mem_append.mp hlen).1 _ _) f hf
    · rw [List.mem_singleton.mp hf]
      exact hlen r (List.mem_append_right _ (List.mem_singleton_self r))
  obtain ⟨first, fs, hwindow⟩ : ∃ first fs, nextWindow s len rs r = first :: fs := by
    refine List.exists_cons_of_length_pos ?_
    rw [nextWindow, length_push hspos (by omega)]
    omega
  change RowHolds s (nextWindow s len rs r) _ at hrow
  rw [hwindow] at hrow hmem
  have hrun := SmoothRead.run_eq hsmooth hs hmax hpos hmem hrow
  refine ⟨⟨first, fs, hwindow, by rw [hrun]⟩, ?_⟩
  rw [hrun]
  refine ⟨hflush.trans hsmooth, fun f i => ?_⟩
  have hstay (row' : List (Option (List ℤ))) : (st.flush.setRow r.fregNum r.index row').flush =
      st.flush.setRow r.fregNum r.index row' := Smoother.flush_of_initialized hinit htrigger
  dsimp only
  rw [hstay]
  by_cases hsame : r.fregNum = f ∧ r.index = i
  · obtain ⟨rfl, rfl⟩ := hsame
    rw [Smoother.setRow_self, framesOf_concat_self, held_concat]
    change RowHolds s (averageFirst len (nextWindow s len rs r)) _
    rw [hwindow]
    exact hrow.averageFirst len
  · rw [framesOf_concat_of_ne hsame, Smoother.setRow_of_ne _ hsame]
    exact hrows f i

/-- **The slots hold the windows** behind any reads. -/
theorem holds_readAll (hflush : AtFlush s st) (hs : 2 ≤ s) (hmax : s < MAX_SMOOTH_NUM)
    (hpos : 0 < len) (hlen : ∀ q ∈ rs, q.frame.length = len) : Holds s len rs (readAll st rs) := by
  induction rs using List.reverseRecOn with
  | nil => exact hflush.holds hmax len
  | append_singleton rs r ih =>
    have hread : readAll st (rs ++ [r]) = (r.run (readAll st rs)).2 := by
      rw [readAll, List.foldl_append]
      rfl
    rw [hread]
    exact ((ih (List.forall_mem_append.mp hlen).1).run hs hmax hpos hlen).2

end Reads

/-! ### Windows of frames as they were read -/

section Raw

variable {s len : ℕ} {fs : List (List ℤ)} {frame : List ℤ}

/-- The last `s` frames, one frame later. -/
theorem rtake_concat (s : ℕ) (fs : List (List ℤ)) (frame : List ℤ) :
    (fs ++ [frame]).rtake s = push s (fs.rtake s) frame := by
  cases s with
  | zero => rw [push, List.rtake_zero, List.rtake_zero]
  | succ s =>
    rw [push, List.rtake_concat_succ, List.rtake_concat_succ]
    refine congrArg (· ++ [frame]) ?_
    rw [List.rtake, List.rtake, List.rtake, List.drop_drop, List.length_drop]
    congr 1
    omega

theorem length_rtake (s : ℕ) (fs : List (List ℤ)) : (fs.rtake s).length = min s fs.length := by
  rw [List.rtake, List.length_drop]
  omega

/-- Behind the first one, the frames that are held are those that were read. -/
theorem tail_held (hpos : 0 < s) (len : ℕ) (fs : List (List ℤ)) :
    (held s len fs).tail = (fs.rtake s).tail := by
  induction fs using List.reverseRecOn with
  | nil => rw [List.rtake_nil]; rfl
  | append_singleton fs frame ih =>
    have hheld := length_held hpos len fs
    have hraw := length_rtake s fs
    rw [held_concat, tail_averageFirst, rtake_concat]
    rcases Nat.lt_or_ge fs.length s with hlt | hge
    · rw [push_of_lt (by omega), push_of_lt (by omega)]
      generalize held s len fs = w at *
      generalize fs.rtake s = v at *
      cases w with
      | nil =>
        have hv : v = [] := List.eq_nil_of_length_eq_zero (by rw [hraw, ← hheld]; rfl)
        rw [hv]
      | cons a w =>
        cases v with
        | nil =>
          rw [List.length_nil] at hraw
          rw [List.length_cons] at hheld
          omega
        | cons b v =>
          rw [List.tail_cons, List.tail_cons] at ih
          rw [List.cons_append, List.cons_append, List.tail_cons, List.tail_cons, ih]
    · rw [push_of_eq hpos (by omega), push_of_eq hpos (by omega), ih]

/-- The average of a single frame is the frame. -/
theorem averageOver_singleton (x : ℕ) (f : List ℤ) : averageOver [f] x f = f := by
  refine List.ext_getElem (length_averageOver _ _ _) fun j hj hj' => ?_
  have hpositives : positives [f] j = if 0 < f[j] then [f[j]] else [] := by
    rw [positives, List.filterMap_cons, List.getElem?_eq_getElem hj']
    dsimp only
    rw [List.filterMap_nil, List.filter_cons, List.filter_nil]
    simp only [decide_eq_true_eq]
  simp only [averageOver, List.getElem_mapIdx, hpositives]
  by_cases hlt : 0 < f[j]
  · rw [if_pos hlt, mean, List.sum_singleton, List.length_singleton, Nat.cast_one, Int.ediv_one,
      ite_self]
  · rw [if_neg hlt, if_neg fun h => h.2 rfl]

/-- **The window has the frames as they were read** when it is full, and when it has one frame at
most. -/
theorem push_held (hpos : 0 < s) (h : fs.length ≤ 1 ∨ s ≤ fs.length) :
    push s (held s len fs) frame = (fs ++ [frame]).rtake s := by
  rw [rtake_concat]
  by_cases hge : s ≤ fs.length
  · have hheld := length_held hpos len fs
    have hraw := length_rtake s fs
    rw [push_of_eq hpos (by omega), push_of_eq hpos (by omega), tail_held hpos]
  · have hone : fs.length ≤ 1 := h.resolve_right hge
    refine congrArg (push s · frame) ?_
    rw [List.rtake, Nat.sub_eq_zero_of_le (by omega), List.drop_zero]
    match fs, hone with
    | [], _ => rfl
    | [f], _ =>
      have hpush : push s [] f = [f] := push_of_lt hpos
      change averageFirst len (push s [] f) = [f]
      rw [hpush, averageFirst, averageOver_singleton]

end Raw

/-! ### Moving averages -/

section Averages

variable {s len : ℕ} {st : Smoother} {rs : List SmoothRead} {r : SmoothRead}

/-- The average of some frames at a bin with a positive sample. -/
theorem averageOver_getElem? {first : List ℤ} {fs : List (List ℤ)}
    (hlen : ∀ f ∈ first :: fs, f.length = len) {j : ℕ} (hj : positives (first :: fs) j ≠ []) :
    (averageOver (first :: fs) len first)[j]? = some (mean (positives (first :: fs) j)) := by
  obtain ⟨x, hx⟩ := List.exists_mem_of_ne_nil _ hj
  obtain ⟨f, hf, hfj⟩ := List.mem_filterMap.mp (List.mem_of_mem_filter hx)
  have hlt : j < len := by
    rw [← hlen f hf]
    exact (List.getElem?_eq_some_iff.mp hfj).1
  have hfirst : j < first.length := by
    rwa [hlen first List.mem_cons_self]
  rw [averageOver, List.getElem?_mapIdx, List.getElem?_eq_getElem hfirst, Option.map_some,
    if_pos ⟨hlt, hj⟩]

/-- A read whose window has the frames as they were read. -/
theorem isMovingAverage_of_window (hflush : AtFlush s st) (hs : 2 ≤ s) (hmax : s < MAX_SMOOTH_NUM)
    (hpos : 0 < len) (hlen : ∀ q ∈ rs ++ [r], q.frame.length = len)
    (hk : (framesOf r.fregNum r.index rs).length ≤ 1 ∨
      s ≤ (framesOf r.fregNum r.index rs).length) :
    IsMovingAverage s len st rs r := by
  have hholds := holds_readAll hflush hs hmax hpos (List.forall_mem_append.mp hlen).1
  obtain ⟨⟨first, fs, hwindow, hout⟩, -⟩ := hholds.run hs hmax hpos hlen
  have hraw : (framesOf r.fregNum r.index (rs ++ [r])).rtake s = first :: fs := by
    rw [framesOf_concat_self, ← push_held (by omega) hk]
    exact hwindow
  have hmem : ∀ f ∈ first :: fs, f.length = len := by
    rw [← hraw]
    exact fun f hf => length_of_mem_framesOf hlen _ _ f (List.mem_of_mem_drop hf)
  refine ⟨_, hout, ?_, fun j hj => ?_⟩
  · rw [length_averageOver, hmem first List.mem_cons_self]
  · rw [hraw] at hj ⊢
    exact averageOver_getElem? hmem hj

/-! ### A window that is not full -/

/-- A frame of one bin, of the first segment and step. -/
def pulse (x : ℤ) : SmoothRead where
  fregNum := 0
  index := 0
  frame := [x]
  fregNum_lt := by decide
  index_lt := by decide

/-- Two pulses, and `n` frames without a positive sample. -/
def pulses (n : ℕ) : List SmoothRead := pulse 1 :: pulse 9 :: List.replicate n (pulse 0)

theorem length_frame_pulses (n : ℕ) : ∀ q ∈ pulses n ++ [pulse 0], q.frame.length = 1 := by
  have hpulse (q : SmoothRead) (x : ℤ) (hq : q = pulse x) : q.frame.length = 1 := by
    rw [hq]
    rfl
  rintro q hq
  rcases List.mem_append.mp hq with hq | hq
  · rcases List.mem_cons.mp hq with hq | hq
    · exact hpulse q 1 hq
    · rcases List.mem_cons.mp hq with hq | hq
      · exact hpulse q 9 hq
      · exact hpulse q 0 (List.eq_of_mem_replicate hq)
  · exact hpulse q 0 (List.mem_singleton.mp hq)

theorem framesOf_pulses (n : ℕ) :
    framesOf 0 0 (pulses n) = [1] :: [9] :: List.replicate n [0] := by
  have hall : ∀ q ∈ pulses n, decide (q.fregNum = 0 ∧ q.index = 0) = true := by
    simp [pulses, pulse]
  rw [framesOf, List.filter_eq_self.mpr hall, pulses, List.map_cons, List.map_cons,
    List.map_replicate]
  rfl

theorem positives_cons_of_pos {f : List ℤ} (fs : List (List ℤ)) {j : ℕ} {x : ℤ}
    (hf : f[j]? = some x) (hx : 0 < x) : positives (f :: fs) j = x :: positives fs j := by
  rw [positives, List.filterMap_cons, hf]
  exact List.filter_cons_of_pos (decide_eq_true hx)

theorem positives_replicate_zero (n : ℕ) : positives (List.replicate n [0]) 0 = [] := by
  refine List.filter_eq_nil_iff.mpr fun x hx => ?_
  obtain ⟨f, hf, hfx⟩ := List.mem_filterMap.mp hx
  rw [List.eq_of_mem_replicate hf] at hfx
  obtain rfl := Option.some.inj hfx
  decide

theorem positives_pulses {a : ℤ} (ha : 0 < a) (n : ℕ) :
    positives ([a] :: [9] :: List.replicate n [0]) 0 = [a, 9] := by
  rw [positives_cons_of_pos _ rfl ha, positives_cons_of_pos _ rfl (by decide),
    positives_replicate_zero]

/-- The average of the window of some pulses. -/
theorem averageOver_pulses {a : ℤ} (ha : 0 < a) (n : ℕ) :
    averageOver ([a] :: [9] :: List.replicate n [0]) 1 [a] = [(a + 9) / 2] := by
  have hcut : (0 : ℕ) < 1 ∧ ([a, 9] : List ℤ) ≠ [] := ⟨Nat.one_pos, List.cons_ne_nil _ _⟩
  rw [averageOver, List.mapIdx_cons, List.mapIdx_nil, positives_pulses ha, if_pos hcut, mean]
  rfl

/-- The first frame is held with the averages that were written over it. -/
theorem held_pulses {n : ℕ} (hn : n + 2 ≤ s) :
    ∃ a, 5 ≤ a ∧ held s 1 ([1] :: [9] :: List.replicate n [0]) =
      [a] :: [9] :: List.replicate n [0] := by
  induction n with
  | zero =>
    have hfirst : held s 1 [[1]] = [[1]] := by
      have hpush : push s [] [1] = [[1]] := push_of_lt (by rw [List.length_nil]; omega)
      change averageFirst 1 (push s [] [1]) = [[1]]
      rw [hpush, averageFirst, averageOver_singleton]
    have hpush : push s [[1]] [9] = [[1], [9]] :=
      push_of_lt (by rw [List.length_singleton]; omega)
    refine ⟨5, le_refl 5, ?_⟩
    change held s 1 ([[1]] ++ [[9]]) = _
    rw [held_concat, hfirst, hpush]
    rfl
  | succ n ih =>
    obtain ⟨a, ha, hheld⟩ := ih (by omega)
    have hconcat (b : ℤ) : [b] :: [9] :: List.replicate (n + 1) [0] =
        ([b] :: [9] :: List.replicate n [0]) ++ [[0]] := by
      rw [List.replicate_succ', List.cons_append, List.cons_append]
    have hpush : push s ([a] :: [9] :: List.replicate n [0]) [0] =
        [a] :: [9] :: List.replicate (n + 1) [0] := by
      rw [hconcat]
      exact push_of_lt (by rw [List.length_cons, List.length_cons, List.length_replicate]; omega)
    refine ⟨(a + 9) / 2, by omega, ?_⟩
    rw [hconcat, held_concat, hheld, hpush, averageFirst, averageOver_pulses (by omega)]

/-- The average of a window that is not full is not the mean of its frames. -/
theorem not_isMovingAverage_pulses {n : ℕ} (hflush : AtFlush s st) (hn : n + 3 ≤ s)
    (hmax : s < MAX_SMOOTH_NUM) : ¬ IsMovingAverage s 1 st (pulses n) (pulse 0) := by
  have hlen := length_frame_pulses n
  obtain ⟨a, ha, hheld⟩ := held_pulses (s := s) (n := n) (by omega)
  have hconcat (b : ℤ) : ([b] :: [9] :: List.replicate n [0]) ++ [[0]] =
      [b] :: [9] :: List.replicate (n + 1) [0] := by
    rw [List.replicate_succ', List.cons_append, List.cons_append]
  -- the window has what was written over the first frame
  have hwindow : nextWindow s 1 (pulses n) (pulse 0) =
      [a] :: [9] :: List.replicate (n + 1) [0] := by
    have hframes : framesOf (pulse 0).fregNum (pulse 0).index (pulses n) =
        [1] :: [9] :: List.replicate n [0] := framesOf_pulses n
    rw [nextWindow, hframes, hheld, push_of_lt, ← hconcat]
    · rfl
    · rw [List.length_cons, List.length_cons, List.length_replicate]
      omega
  have hholds := holds_readAll hflush (by omega) hmax Nat.one_pos (List.forall_mem_append.mp hlen).1
  obtain ⟨⟨first, fs, heq, hout⟩, -⟩ := hholds.run (by omega) hmax Nat.one_pos hlen
  rw [hwindow] at heq
  obtain ⟨rfl, rfl⟩ := List.cons.inj heq
  rw [averageOver_pulses (by omega)] at hout
  -- and the mean is that of the frames as they were read
  have hraw : (framesOf (pulse 0).fregNum (pulse 0).index (pulses n ++ [pulse 0])).rtake s =
      [1] :: [9] :: List.replicate (n + 1) [0] := by
    have hframes : framesOf (pulse 0).fregNum (pulse 0).index (pulses n ++ [pulse 0]) =
        ([1] :: [9] :: List.replicate n [0]) ++ [[0]] :=
      (framesOf_concat_self (pulses n) (pulse 0)).trans (congrArg (· ++ [[0]]) (framesOf_pulses n))
    rw [hframes, hconcat, List.rtake, Nat.sub_eq_zero_of_le, List.drop_zero]
    rw [List.length_cons, List.length_cons, List.length_replicate]
    omega
  rintro ⟨out, hrun, -, hmean⟩
  obtain rfl := Option.some.inj (hout.symm.trans hrun)
  have hbin := hmean 0
  rw [hraw, positives_pulses Int.one_pos] at hbin
  have hfive := Option.some.inj (hbin (List.cons_ne_nil _ _))
  have hvalue : mean [1, 9] = 5 := rfl
  rw [hvalue] at hfive
  omega

/-- **Which outputs are moving averages**: the first two behind a flush, and those of a window that
was full before the read. The pointer that a read returns is the slot itself, and the caller leaves
it alone here; `spm_chip_send_fft_data` calibrates the samples in place. -/
theorem isMovingAverage_iff {k : ℕ} (hs : 2 ≤ s) (hmax : s < MAX_SMOOTH_NUM) (hk : 0 < k) :
    (∀ st, AtFlush s st → ∀ len > 0, ∀ rs r, (∀ q ∈ rs ++ [r], q.frame.length = len) →
        (framesOf r.fregNum r.index (rs ++ [r])).length = k → IsMovingAverage s len st rs r) ↔
      k ≤ 2 ∨ s < k := by
  constructor
  · intro h
    by_contra hnot
    obtain ⟨n, rfl⟩ := Nat.exists_eq_add_of_le' (show 3 ≤ k by omega)
    have hflush : AtFlush s { smooth := s } := ⟨rfl, .inl rfl⟩
    refine not_isMovingAverage_pulses hflush (by omega) hmax
      (h _ hflush 1 Nat.one_pos (pulses n) (pulse 0) (length_frame_pulses n) ?_)
    refine (congrArg List.length (framesOf_concat_self (pulses n) (pulse 0))).trans ?_
    rw [List.length_append, List.length_singleton]
    refine (congrArg (·.length + 1) (framesOf_pulses n)).trans ?_
    rw [List.length_cons, List.length_cons, List.length_replicate]
  · intro hcount st hflush len hpos rs r hlen hframes
    rw [framesOf_concat_self, List.length_append, List.length_singleton] at hframes
    exact isMovingAverage_of_window hflush hs hmax hpos hlen (by omega)

end Averages

/-- The fourth frame of a window of three. -/
theorem isMovingAverage_iff_fourth : IsMovingAverage 3 1 { smooth := 3 } (pulses 1) (pulse 0) :=
  (isMovingAverage_iff (s := 3) (k := 4) (by decide) (by decide) (by decide)).mpr
    (.inr (by decide)) { smooth := 3 } ⟨rfl, .inl rfl⟩ 1 Nat.one_pos (pulses 1) (pulse 0)
    (length_frame_pulses 1) rfl

/-- The third frame of a window of three: one, nine and no positive sample give seven. -/
theorem not_isMovingAverage_third :
    ¬ IsMovingAverage 3 1 { smooth := 3 } (pulses 0) (pulse 0) :=
  not_isMovingAverage_pulses ⟨rfl, .inl rfl⟩ (by decide) (by decide)

end M57Card.Executor
