import Mathlib.Data.List.Nodup
import Mathlib.Data.List.Range
import M57Card.Fs.SplitNames
import M57Card.Lib.Runs

/-!
# Recordings

The save thread calls `_fs_start_save_file_thread` (`fs.c`, lines 490–533) until the recording is
stopped. A call reads a block, writes it to the current file and gives it back; `_fs_split_file`
opens the next file when the current one holds the threshold. A block at which the sample size is
reached is given back twice, one that comes when the next file cannot be opened not at all, and a
failed write is forgotten.

## Main definitions

* `fsSplitFile`, `writeDiskRun`, `fsStartSaveFileThread` : the model.
* `Recorder.Right` : what a recording does with its blocks and files.
* `Undisturbed` : the calls that keep it.

## Main results

* `recording_right` : a recording that is not disturbed is right.
* `not_right_full` : one that reaches its sample size is not, nor one whose next file does not open.
-/

namespace M57Card.Fs

/-! ### The model -/

/-- `sample_policy_code`. -/
inductive SamplePolicyCode where
  | timer
  | size
  | free
  deriving DecidableEq

/-- The arguments of a recording, and `split_file_threshold_byte`. -/
structure SaveConf where
  sampleTime : ℕ
  sampleSize : ℕ
  threshold : ℕ

/-- `_fs_get_sample_policy`. -/
def fsGetSamplePolicy (c : SaveConf) : SamplePolicyCode :=
  if 0 < c.sampleTime then .timer else if 0 < c.sampleSize then .size else .free

/-- A file: its name, and the numbers of the blocks and of their bytes that were written to it. -/
structure RecordFile where
  name : Option (List Char)
  pieces : List (ℕ × ℕ)

/-- The bytes of a file. -/
def RecordFile.size (f : RecordFile) : ℕ := (f.pieces.map Prod.snd).sum

/-- `push_arg` with the files on the disk, and what happened to the blocks: a block has the number
of the call that reads it. -/
structure Recorder where
  nbyte : ℕ
  splitNbyte : ℕ
  splitNum : ℕ
  /-- no text when the fields of the last one were not found -/
  filename : Option (List Char)
  /-- `fd` is the descriptor of the current file, which is not closed -/
  isOpen : Bool
  closed : List RecordFile
  current : RecordFile
  calls : ℕ
  obtained : List ℕ
  given : List ℕ
  written : List (ℕ × ℕ)
  failed : Bool
  stopped : Bool

/-- `_fs_start_save_file`. -/
def fsStartSaveFile (filename : List Char) : Recorder where
  nbyte := 0
  splitNbyte := 0
  splitNum := 0
  filename := some filename
  isOpen := true
  closed := []
  current := ⟨some filename, []⟩
  calls := 0
  obtained := []
  given := []
  written := []
  failed := false
  stopped := false

/-- What a call meets: the result of `read_adc_data`, the alert, whether the next file opens, and
the result of `write`. -/
structure SaveInput where
  nread : ℤ
  diskIsFullAlert : Bool
  opens : Bool
  rc : ℤ
  rc_le : 0 < nread → rc ≤ nread

namespace Recorder

variable (s : Recorder)

/-- The files of the recording. -/
def files : List RecordFile := s.closed ++ [s.current]

/-- `read_adc_data`. -/
def readAdcData (nread : ℤ) : Recorder :=
  { s with
    calls := s.calls + 1
    obtained := if 0 < nread then s.obtained ++ [s.calls] else s.obtained }

/-- `read_adc_over_deal` for the block `i`. -/
def readAdcOverDeal (i : ℕ) : Recorder := { s with given := s.given ++ [i] }

/-- `open` with `O_CREAT` and `O_TRUNC`: a file of this name loses its bytes. -/
def openNext : Recorder :=
  { s with
    isOpen := true
    closed := s.files.map fun f => if f.name = s.filename then { f with pieces := [] } else f
    current := ⟨s.filename, []⟩ }

end Recorder

/-- The current file holds the threshold. -/
def Splits (c : SaveConf) (s : Recorder) : Prop := 0 < c.threshold ∧ c.threshold ≤ s.splitNbyte

instance (c : SaveConf) (s : Recorder) : Decidable (Splits c s) :=
  inferInstanceAs (Decidable (_ ∧ _))

/-- `_fs_split_file`. -/
def fsSplitFile (c : SaveConf) (opens : Bool) (s : Recorder) : ℤ × Recorder :=
  if Splits c s then
    let s := { s with
      isOpen := false
      splitNum := s.splitNum + 1
      splitNbyte := 0
      filename := s.filename.bind fun name => fsSplitFileRename name (s.splitNum + 1) }
    if opens then (0, s.openNext) else (-1, { s with failed := true })
  else (0, s)

/-- `_write_disk_run` for the block `i`; a `write` to a closed descriptor fails. -/
def writeDiskRun (i : ℕ) (x : SaveInput) (s : Recorder) : Recorder :=
  if s.isOpen = true ∧ 0 ≤ x.rc then
    { s with
      current := { s.current with pieces := s.current.pieces ++ [(i, x.rc.toNat)] }
      written := s.written ++ [(i, x.nread.toNat)] }
  else { s with failed := true }

/-- `_fs_sample_size_full` for `nbyte` bytes. -/
def fsSampleSizeFull (c : SaveConf) (nbyte : ℕ) : Prop :=
  fsGetSamplePolicy c = .size ∧ c.sampleSize ≤ nbyte

instance (c : SaveConf) (nbyte : ℕ) : Decidable (fsSampleSizeFull c nbyte) :=
  inferInstanceAs (Decidable (_ ∧ _))

/-- `nbyte` behind a block. -/
def nbyteAfter (x : SaveInput) (s : Recorder) : ℕ := (s.nbyte + x.nread.toNat) % 2 ^ 64

/-- What `_fs_start_save_file_thread` does behind the write: it counts the bytes of the split file,
and it stops at the sample size. -/
def endBlock (c : SaveConf) (i : ℕ) (x : SaveInput) (s : Recorder) : Recorder :=
  let s := { s with splitNbyte := (s.splitNbyte + x.nread.toNat) % 2 ^ 64 }
  if fsSampleSizeFull c s.nbyte then { s.readAdcOverDeal i with stopped := true } else s

/-- The part of `_fs_start_save_file_thread` for the block `i`. -/
def saveBlock (c : SaveConf) (i : ℕ) (x : SaveInput) (s : Recorder) : Recorder :=
  let r := fsSplitFile c x.opens { s with nbyte := nbyteAfter x s }
  endBlock c i x (if r.1 = 0 then (writeDiskRun i x r.2).readAdcOverDeal i else r.2)

/-- `_fs_start_save_file_thread`. -/
def fsStartSaveFileThread (c : SaveConf) (x : SaveInput) (s : Recorder) : Recorder :=
  let i := s.calls
  let s := s.readAdcData x.nread
  if x.diskIsFullAlert then { s.readAdcOverDeal i with stopped := true }
  else if 0 < x.nread then saveBlock c i x s
  else s

/-- A call of the thread, when the recording is not stopped. -/
def saveStep (c : SaveConf) (s : Recorder) (x : SaveInput) : Recorder :=
  if s.stopped then s else fsStartSaveFileThread c x s

/-! ### Right recordings -/

/-- Every block is given back once, the blocks whose `write` does not fail are in the files in their
order, the files have different names, all but the last hold the threshold, and a failure has ended
the recording. -/
structure Recorder.Right (c : SaveConf) (s : Recorder) : Prop where
  given : ∀ i ∈ s.obtained, s.given.count i = 1
  written : s.files.flatMap RecordFile.pieces = s.written
  names : (s.files.map RecordFile.name).Nodup
  threshold_le : ∀ f ∈ s.closed, c.threshold ≤ f.size
  ended : s.failed = true → s.stopped = true

/-- The call comes behind the end of the recording, brings no block or finds the disk full; or it
writes its whole block, to a file whose name is not that of the first one and has an `int` as its
number, and does not reach the sample size; or the next file does not open, and it reaches the
sample size. -/
def Undisturbed (c : SaveConf) (w : RecordName) (s : Recorder) (x : SaveInput) : Prop :=
  s.stopped = true ∨ x.nread ≤ 0 ∨ x.diskIsFullAlert = true ∨
    (Splits c s → x.opens = true ∧ w.num ≠ some (s.splitNum + 2) ∧ s.splitNum + 2 < 2 ^ 31) ∧
      x.rc = x.nread ∧ ¬ fsSampleSizeFull c (nbyteAfter x s) ∨
    Splits c s ∧ x.opens = false ∧ fsSampleSizeFull c (nbyteAfter x s)

/-! ### Files -/

section Files

variable {c : SaveConf} {w : RecordName} {s : Recorder} {i : ℕ} {x : SaveInput}

/-- The files while the recording goes on. -/
structure Stored (c : SaveConf) (w : RecordName) (s : Recorder) : Prop where
  isOpen : s.isOpen = true
  filename : s.filename = some (w.name s.splitNum)
  names : s.files.map RecordFile.name =
    (List.range (s.splitNum + 1)).map fun k => some (w.name k)
  nodup : (s.files.map RecordFile.name).Nodup
  written : s.files.flatMap RecordFile.pieces = s.written
  threshold_le : ∀ f ∈ s.closed, c.threshold ≤ f.size
  splitNbyte_le : s.splitNbyte ≤ s.current.size

/-- The next name is a new one. -/
theorem name_notMem {k : ℕ} (hnum : w.num ≠ some (k + 2)) :
    some (w.name (k + 1)) ∉ (List.range (k + 1)).map fun k => some (w.name k) := by
  intro hmem
  obtain ⟨j, hj, heq⟩ := List.mem_map.mp hmem
  exact w.name_ne (List.mem_range.mp hj) hnum (Option.some.inj heq)

/-- Opening a file with a new name leaves the other files as they are. -/
theorem openNext_closed (hname : s.filename ∉ s.files.map RecordFile.name) :
    s.openNext.closed = s.files := by
  have hkeep (f : RecordFile) (hf : f ∈ s.files) :
      (if f.name = s.filename then { f with pieces := [] } else f) = id f := by
    refine if_neg fun heq => hname ?_
    rw [← heq]
    exact List.mem_map_of_mem hf
  exact (List.map_congr_left hkeep).trans (List.map_id _)

/-- All files hold the threshold when the current one does. -/
theorem Stored.threshold_le_files (h : Stored c w s) (hsplits : Splits c s) (f : RecordFile)
    (hf : f ∈ s.files) : c.threshold ≤ f.size := by
  cases List.mem_append.mp hf with
  | inl hclosed => exact h.threshold_le f hclosed
  | inr hcurrent =>
    rw [List.mem_singleton.mp hcurrent]
    exact hsplits.2.trans h.splitNbyte_le

/-- The next file is there when the current one holds the threshold. -/
theorem Stored.split {opens : Bool} (h : Stored c w s)
    (hnext : Splits c s → opens = true ∧ w.num ≠ some (s.splitNum + 2) ∧ s.splitNum + 2 < 2 ^ 31) :
    (fsSplitFile c opens s).1 = 0 ∧ Stored c w (fsSplitFile c opens s).2 := by
  rw [fsSplitFile]
  split_ifs with hsplits hopens
  · obtain ⟨-, hnum, hlt⟩ := hnext hsplits
    have hname : (s.filename.bind fun name => fsSplitFileRename name (s.splitNum + 1)) =
        some (w.name (s.splitNum + 1)) := by
      rw [h.filename, Option.bind_some, w.rename_name hlt]
    have hnew : some (w.name (s.splitNum + 1)) ∉ s.files.map RecordFile.name := by
      rw [h.names]
      exact name_notMem hnum
    rw [hname]
    let t : Recorder := { s with
      isOpen := false
      splitNum := s.splitNum + 1
      splitNbyte := 0
      filename := some (w.name (s.splitNum + 1)) }
    have hclosed : t.openNext.closed = s.files := openNext_closed hnew
    have hfiles : t.openNext.files = s.files ++ [⟨some (w.name (s.splitNum + 1)), []⟩] := by
      rw [← hclosed]
      rfl
    have hnames : t.openNext.files.map RecordFile.name =
        s.files.map RecordFile.name ++ [some (w.name (s.splitNum + 1))] := by
      rw [hfiles, List.map_append]
      rfl
    refine ⟨rfl, rfl, rfl, ?_, ?_, ?_, ?_, Nat.zero_le _⟩
    · rw [hnames, h.names]
      exact (List.range_succ (n := s.splitNum + 1) ▸ List.map_append).symm
    · rw [hnames]
      exact List.Nodup.append h.nodup (List.nodup_singleton _) (List.disjoint_singleton.mpr hnew)
    · rw [hfiles, List.flatMap_append, h.written]
      exact List.append_nil _
    · rw [hclosed]
      exact h.threshold_le_files hsplits
  · exact absurd (hnext hsplits).1 hopens
  · exact ⟨rfl, h⟩

/-- A block that is written whole. -/
theorem Stored.write (h : Stored c w s) (hread : 0 < x.nread) (hrc : x.rc = x.nread) :
    Stored c w { writeDiskRun i x s with
      splitNbyte := ((writeDiskRun i x s).splitNbyte + x.nread.toNat) % 2 ^ 64 } := by
  have hok : s.isOpen = true ∧ 0 ≤ x.rc := ⟨h.isOpen, by omega⟩
  rw [writeDiskRun, if_pos hok]
  let f : RecordFile := ⟨s.current.name, s.current.pieces ++ [(i, x.rc.toNat)]⟩
  have hnames : (s.closed ++ [f]).map RecordFile.name = s.files.map RecordFile.name := by
    rw [Recorder.files, List.map_append, List.map_append]
    rfl
  refine ⟨h.isOpen, h.filename, ?_, ?_, ?_, h.threshold_le, ?_⟩
  · exact hnames.trans h.names
  · exact hnames ▸ h.nodup
  · have hwritten := h.written
    rw [Recorder.files, List.flatMap_append, List.flatMap_singleton] at hwritten
    rw [← hwritten, ← hrc]
    simp [Recorder.files]
  · have hsize : f.size = s.current.size + x.nread.toNat := by
      simp [f, RecordFile.size, hrc]
    have hle := h.splitNbyte_le
    have hmod := Nat.mod_le (s.splitNbyte + x.nread.toNat) (2 ^ 64)
    exact hsize ▸ hmod.trans (Nat.add_le_add_right hle _)

end Files

/-! ### Runs -/

section Runs

variable {c : SaveConf} {w : RecordName} {s : Recorder} {x : SaveInput}

/-- The recording while it goes on: a block given back has been read. -/
structure Live (c : SaveConf) (w : RecordName) (s : Recorder) : Prop extends Stored c w s where
  obtained_lt : ∀ i ∈ s.obtained, i < s.calls
  given_lt : ∀ i ∈ s.given, i < s.calls

/-- A recording that is not disturbed. -/
structure Kept (c : SaveConf) (w : RecordName) (s : Recorder) : Prop where
  right : s.Right c
  live : s.stopped = false → Live c w s

/-- The block of a call is given back once, and the others are given back as often as before. -/
theorem count_given {obtained given : List ℕ} {n : ℕ}
    (h : ∀ i ∈ obtained, given.count i = 1) (hobtained : ∀ i ∈ obtained, i < n)
    (hgiven : ∀ i ∈ given, i < n) : ∀ i ∈ obtained ++ [n], (given ++ [n]).count i = 1 := by
  intro i hi
  cases List.mem_append.mp hi with
  | inl hold =>
    have hne : ¬ (n == i) = true := by
      rw [beq_iff_eq]
      exact (hobtained i hold).ne'
    rw [List.count_append, h i hold, List.count_singleton, if_neg hne]
  | inr hnew =>
    have hfresh : given.count n = 0 :=
      List.count_eq_zero.mpr fun hmem => (hgiven n hmem).false
    rw [List.mem_singleton.mp hnew, List.count_append, hfresh, List.count_singleton_self]

/-- What `_fs_split_file` leaves as it is. -/
theorem fsSplitFile_frame (opens : Bool) (s : Recorder) :
    (fsSplitFile c opens s).2.obtained = s.obtained ∧ (fsSplitFile c opens s).2.given = s.given ∧
      (fsSplitFile c opens s).2.calls = s.calls ∧ (fsSplitFile c opens s).2.nbyte = s.nbyte ∧
      (fsSplitFile c opens s).2.stopped = s.stopped := by
  rw [fsSplitFile]
  split_ifs <;> exact ⟨rfl, rfl, rfl, rfl, rfl⟩

theorem fsSplitFile_failed {opens : Bool} (hret : (fsSplitFile c opens s).1 = 0) :
    (fsSplitFile c opens s).2.failed = s.failed := by
  rw [fsSplitFile] at hret ⊢
  split_ifs at hret ⊢ with hsplits hopens
  · rfl
  · cases hret
  · rfl

/-- What `_write_disk_run` leaves as it is when it does not fail. -/
theorem writeDiskRun_frame {i : ℕ} (hok : s.isOpen = true ∧ 0 ≤ x.rc) :
    (writeDiskRun i x s).obtained = s.obtained ∧ (writeDiskRun i x s).given = s.given ∧
      (writeDiskRun i x s).calls = s.calls ∧ (writeDiskRun i x s).nbyte = s.nbyte ∧
      (writeDiskRun i x s).stopped = s.stopped ∧ (writeDiskRun i x s).failed = s.failed := by
  rw [writeDiskRun, if_pos hok]
  exact ⟨rfl, rfl, rfl, rfl, rfl, rfl⟩

/-- A block that is written whole to the right file is given back once. -/
theorem saveBlock_written {i : ℕ} (h : Stored c w s) (hread : 0 < x.nread)
    (hnext : Splits c s → x.opens = true ∧ w.num ≠ some (s.splitNum + 2) ∧
      s.splitNum + 2 < 2 ^ 31)
    (hrc : x.rc = x.nread) (hfull : ¬ fsSampleSizeFull c (nbyteAfter x s)) :
    Stored c w (saveBlock c i x s) ∧ (saveBlock c i x s).obtained = s.obtained ∧
      (saveBlock c i x s).given = s.given ++ [i] ∧ (saveBlock c i x s).calls = s.calls ∧
      (saveBlock c i x s).failed = s.failed := by
  obtain ⟨hret, hsplit⟩ := Stored.split (s := { s with nbyte := nbyteAfter x s })
    ⟨h.isOpen, h.filename, h.names, h.nodup, h.written, h.threshold_le, h.splitNbyte_le⟩ hnext
  obtain ⟨hobtained, hgiven, hcalls, hnbyte, -⟩ :=
    fsSplitFile_frame (c := c) x.opens { s with nbyte := nbyteAfter x s }
  have hfailed := fsSplitFile_failed hret
  obtain ⟨hobtained', hgiven', hcalls', hnbyte', -, hfailed'⟩ :=
    writeDiskRun_frame (i := i) (x := x) ⟨hsplit.isOpen, by omega⟩
  have hwrite := hsplit.write (i := i) hread hrc
  have hblock : saveBlock c i x s =
      let t := writeDiskRun i x (fsSplitFile c x.opens { s with nbyte := nbyteAfter x s }).2
      { t with
        given := t.given ++ [i]
        splitNbyte := (t.splitNbyte + x.nread.toNat) % 2 ^ 64 } := by
    rw [saveBlock]
    dsimp only
    rw [if_pos hret, endBlock]
    refine if_neg ?_
    rwa [Recorder.readAdcOverDeal, hnbyte', hnbyte]
  rw [hblock]
  refine ⟨⟨hwrite.isOpen, hwrite.filename, hwrite.names, hwrite.nodup, hwrite.written,
    hwrite.threshold_le, hwrite.splitNbyte_le⟩, hobtained'.trans hobtained, ?_,
    hcalls'.trans hcalls, hfailed'.trans hfailed⟩
  exact congrArg (· ++ [i]) (hgiven'.trans hgiven)

/-- A block for which no file opens is given back once when it reaches the sample size. -/
theorem saveBlock_full {i : ℕ} (hsplits : Splits c s) (hopens : x.opens = false)
    (hfull : fsSampleSizeFull c (nbyteAfter x s)) :
    (saveBlock c i x s).obtained = s.obtained ∧ (saveBlock c i x s).given = s.given ++ [i] ∧
      (saveBlock c i x s).closed = s.closed ∧ (saveBlock c i x s).files = s.files ∧
      (saveBlock c i x s).written = s.written ∧ (saveBlock c i x s).stopped = true := by
  have hsplits' : Splits c { s with nbyte := nbyteAfter x s } := hsplits
  have hblock : saveBlock c i x s = { s with
      nbyte := nbyteAfter x s
      isOpen := false
      splitNum := s.splitNum + 1
      splitNbyte := (0 + x.nread.toNat) % 2 ^ 64
      filename := s.filename.bind fun name => fsSplitFileRename name (s.splitNum + 1)
      given := s.given ++ [i]
      failed := true
      stopped := true } := by
    rw [saveBlock, fsSplitFile, if_pos hsplits', hopens]
    exact if_pos hfull
  rw [hblock]
  exact ⟨rfl, rfl, rfl, rfl, rfl, rfl⟩

theorem forall_lt_concat {l : List ℕ} {n : ℕ} (h : ∀ i ∈ l, i < n) : ∀ i ∈ l ++ [n], i < n + 1 := by
  intro i hi
  cases List.mem_append.mp hi with
  | inl hold => exact (h i hold).trans (Nat.lt_succ_self _)
  | inr hnew => exact (List.mem_singleton.mp hnew).le.trans_lt (Nat.lt_succ_self _)

/-- A call that gives its block back and ends the recording. -/
theorem Kept.alert (h : Kept c w s) (hlive : Live c w s) (nread : ℤ) :
    Kept c w { (s.readAdcData nread).readAdcOverDeal s.calls with stopped := true } := by
  refine ⟨⟨fun i hi => ?_, h.right.written, h.right.names, h.right.threshold_le, fun _ => rfl⟩,
    fun hrun => Bool.noConfusion hrun⟩
  refine count_given h.right.given hlive.obtained_lt hlive.given_lt i ?_
  dsimp only [Recorder.readAdcData, Recorder.readAdcOverDeal] at hi
  split_ifs at hi
  · exact hi
  · exact List.mem_append_left _ hi

/-- A call whose block is written. -/
theorem Kept.written (h : Kept c w s) (hlive : Live c w s) (hrun : s.stopped = false)
    (hread : 0 < x.nread)
    (hnext : Splits c s → x.opens = true ∧ w.num ≠ some (s.splitNum + 2) ∧
      s.splitNum + 2 < 2 ^ 31)
    (hrc : x.rc = x.nread) (hfull : ¬ fsSampleSizeFull c (nbyteAfter x s)) :
    Kept c w (saveBlock c s.calls x (s.readAdcData x.nread)) := by
  have hstored : Stored c w (s.readAdcData x.nread) :=
    ⟨hlive.isOpen, hlive.filename, hlive.names, hlive.nodup, hlive.written, hlive.threshold_le,
      hlive.splitNbyte_le⟩
  have hobtained : (s.readAdcData x.nread).obtained = s.obtained ++ [s.calls] := if_pos hread
  obtain ⟨hafter, hobtained', hgiven, hcalls, hfailed⟩ :=
    saveBlock_written (i := s.calls) hstored hread hnext hrc hfull
  rw [hobtained] at hobtained'
  refine ⟨⟨?_, hafter.written, hafter.nodup, hafter.threshold_le, fun hfail => ?_⟩,
    fun _ => ⟨hafter, ?_, ?_⟩⟩
  · rw [hobtained', hgiven]
    exact count_given h.right.given hlive.obtained_lt hlive.given_lt
  · rw [hfailed] at hfail
    exact absurd (hrun.symm.trans (h.right.ended hfail)) Bool.false_ne_true
  · rw [hobtained', hcalls]
    exact forall_lt_concat hlive.obtained_lt
  · rw [hgiven, hcalls]
    exact forall_lt_concat hlive.given_lt

/-- A call whose block reaches the sample size when no file opens. -/
theorem Kept.full (h : Kept c w s) (hlive : Live c w s) (hread : 0 < x.nread)
    (hsplits : Splits c s) (hopens : x.opens = false)
    (hfull : fsSampleSizeFull c (nbyteAfter x s)) :
    Kept c w (saveBlock c s.calls x (s.readAdcData x.nread)) := by
  have hobtained : (s.readAdcData x.nread).obtained = s.obtained ++ [s.calls] := if_pos hread
  obtain ⟨hobtained', hgiven, hclosed, hfiles, hwritten, hstop⟩ :=
    saveBlock_full (i := s.calls) (s := s.readAdcData x.nread) hsplits hopens hfull
  refine ⟨⟨?_, ?_, ?_, ?_, fun _ => hstop⟩, fun hrun => absurd (hstop.symm.trans hrun) ?_⟩
  · rw [hobtained', hobtained, hgiven]
    exact count_given h.right.given hlive.obtained_lt hlive.given_lt
  · rw [hfiles, hwritten]
    exact h.right.written
  · rw [hfiles]
    exact h.right.names
  · rw [hclosed]
    exact h.right.threshold_le
  · decide

/-- A call that reads nothing. -/
theorem Kept.none (h : Kept c w s) (hlive : Live c w s) (hread : ¬ 0 < x.nread) :
    Kept c w (s.readAdcData x.nread) := by
  have hobtained : (s.readAdcData x.nread).obtained = s.obtained := if_neg hread
  refine ⟨⟨?_, h.right.written, h.right.names, h.right.threshold_le, h.right.ended⟩,
    fun _ => ⟨⟨hlive.isOpen, hlive.filename, hlive.names, hlive.nodup, hlive.written,
      hlive.threshold_le, hlive.splitNbyte_le⟩, ?_, fun i hi => ?_⟩⟩
  · rw [hobtained]
    exact h.right.given
  · rw [hobtained]
    exact fun i hi => (hlive.obtained_lt i hi).trans (Nat.lt_succ_self _)
  · exact (hlive.given_lt i hi).trans (Nat.lt_succ_self _)

/-- A call that does not disturb the recording keeps it. -/
theorem Kept.saveStep (h : Kept c w s) (hcall : Undisturbed c w s x) :
    Kept c w (saveStep c s x) := by
  rw [Fs.saveStep]
  split_ifs with hstopped
  · exact h
  have hrun := eq_false_of_ne_true hstopped
  have hlive := h.live hrun
  rw [fsStartSaveFileThread]
  dsimp only
  split_ifs with halert hread
  · exact h.alert hlive x.nread
  · obtain hend | hnone | hdisk | ⟨hnext, hrc, hfull⟩ | ⟨hsplits, hopens, hfull⟩ := hcall
    · exact absurd hend hstopped
    · exact absurd hread (Int.not_lt.mpr hnone)
    · exact absurd hdisk halert
    · exact h.written hlive hrun hread hnext hrc hfull
    · exact h.full hlive hread hsplits hopens hfull
  · exact h.none hlive hread

theorem kept_start : Kept c w (fsStartSaveFile (w.name 0)) where
  right := {
    given := fun _ hi => absurd hi List.not_mem_nil
    written := rfl
    names := List.nodup_singleton _
    threshold_le := fun _ hf => absurd hf List.not_mem_nil
    ended := fun hfail => Bool.noConfusion hfail }
  live := fun _ => {
    isOpen := rfl
    filename := rfl
    names := rfl
    nodup := List.nodup_singleton _
    written := rfl
    threshold_le := fun _ hf => absurd hf List.not_mem_nil
    splitNbyte_le := Nat.le_refl 0
    obtained_lt := fun _ hi => absurd hi List.not_mem_nil
    given_lt := fun _ hi => absurd hi List.not_mem_nil }

end Runs

/-- A recording is right after every call when none of its calls disturbs it. -/
theorem recording_right (c : SaveConf) (w : RecordName) (xs : List SaveInput)
    (hall : ∀ pre x, pre ++ [x] <+: xs →
      Undisturbed c w (pre.foldl (saveStep c) (fsStartSaveFile (w.name 0))) x)
    (pre : List SaveInput) (hpre : pre <+: xs) :
    (pre.foldl (saveStep c) (fsStartSaveFile (w.name 0))).Right c :=
  (forall_states_of kept_start (fun _ _ => Kept.saveStep) hall pre hpre).right

/-- `CH0_D1_F70_B80_R4_N0001_TIQ.wav`. -/
def numberedName : RecordName where
  ch := ['0']
  d := ['1']
  f := ['7', '0']
  b := ['8', '0']
  r := ['4']
  num := some 1
  notMem := by decide
  ch_le := by decide
  d_le := by decide
  f_le := by decide
  b_le := by decide
  r_le := by decide
  num_lt := by decide
  length_le := by decide

/-- A block of `n` bytes that is written whole. -/
def wholeBlock (n : ℕ) : SaveInput where
  nread := n
  diskIsFullAlert := false
  opens := true
  rc := n
  rc_le := fun _ => Int.le_refl n

/-- Two blocks in two files. -/
theorem recording_right_split :
    ([wholeBlock 8, wholeBlock 4].foldl (saveStep ⟨0, 0, 8⟩)
      (fsStartSaveFile (numberedName.name 0))).Right ⟨0, 0, 8⟩ := by
  refine recording_right ⟨0, 0, 8⟩ numberedName [wholeBlock 8, wholeBlock 4] ?_ _
    (List.prefix_refl _)
  refine forall_step_cons.mpr ⟨?_, forall_step_cons.mpr ⟨?_, forall_step_nil⟩⟩
  · exact .inr (.inr (.inr (.inl ⟨by decide, rfl, by decide⟩)))
  · exact .inr (.inr (.inr (.inl ⟨by decide, rfl, by decide⟩)))

/-- The block that reaches the sample size is given back twice, and a recording whose next file does
not open loses a block and goes on. -/
theorem not_right_full :
    ¬ ([wholeBlock 8].foldl (saveStep ⟨0, 8, 0⟩) (fsStartSaveFile (numberedName.name 0))).Right
        ⟨0, 8, 0⟩ ∧
      ¬ ([wholeBlock 8, { wholeBlock 4 with opens := false }].foldl (saveStep ⟨0, 0, 8⟩)
        (fsStartSaveFile (numberedName.name 0))).Right ⟨0, 0, 8⟩ := by
  constructor
  · intro h
    have hgiven := h.given 0 (by decide)
    exact absurd hgiven (by decide)
  · intro h
    have hgiven := h.given 1 (by decide)
    exact absurd hgiven (by decide)

end M57Card.Fs
