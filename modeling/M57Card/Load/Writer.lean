import M57Card.Load.Channel

/-!
# The writer of a bit file

`_m57_loading_bitfile_to_fpga_thread` (`m57.c`, lines 371–427) reads a file in blocks of 4096 bytes,
fills each block with zeros to a multiple of four, and writes it to the FPGA. It adds up the bytes
that were written and the zeros, and in the end it prints whether the two sums agree with the size
of the file; its result does not depend on that. The progress that it prints is a quotient by the
size of the file.

The writes go to `xspm_stram_write` (`spm_xdma.c`, lines 419–455), which calls `write` until all
bytes are written. A result of `-1` means that nothing can be said about the bytes; any other result
is the number of bytes written, and is smaller than the length of the buffer when `write` would
block.

## Main definitions

* `xspmStramWrite`, `XdmaIsStream` : the results of a write.
* `m57LoadingBitfileToFpgaThread` : the thread, with its sums.
* `WrittenWhole` : blocks that are written completely.
* `WritesFile` : what the thread should do.

## Main results

* `loadingLoop_sums` : the sums of the loop agree exactly when every block is written completely.
* `writesFile_iff` : when the thread does what it should.
-/

namespace M57Card.M57

open Net Bytes

/-! ### A write -/

/-- The result of a call of `write`. -/
inductive WriteResult where
  | written (n : ℕ)
  /-- `EINTR` -/
  | interrupted
  /-- `EAGAIN`, `EWOULDBLOCK` or `ENOTCONN` -/
  | wouldBlock
  | error
  deriving DecidableEq

/-- The loop of `xspm_stram_write`, with `ret` bytes written so far; `write` takes at most the bytes
it is given. -/
def xspmWriteLoop : List WriteResult → ℕ → ℕ → Option ℤ
  | _, 0, ret => some ret
  | [], _ + 1, _ => none
  | .written n :: rs, buflen + 1, ret =>
      xspmWriteLoop rs (buflen + 1 - min n (buflen + 1)) (ret + min n (buflen + 1))
  | .interrupted :: rs, buflen + 1, ret => xspmWriteLoop rs (buflen + 1) ret
  | .wouldBlock :: _, _ + 1, ret => some ret
  | .error :: _, _ + 1, _ => some (-1)

/-- `xspm_stram_write`; `isOpen` says that the device is found and open. No result when the calls of
`write` that are given are not all. -/
def xspmStramWrite (isOpen : Bool) (rs : List WriteResult) (dataLen : ℕ) : Option ℤ :=
  if dataLen = 0 then some 0 else if isOpen then xspmWriteLoop rs dataLen 0 else some (-1)

/-- The results of the writes to the FPGA are those of `xspm_stram_write`. -/
def XdmaIsStream (env : Env) : Prop :=
  ∀ t n, ∃ isOpen rs, xspmStramWrite isOpen rs n = some (env.writeXdmaData t n)

theorem xspmWriteLoop_le (rs : List WriteResult) (buflen ret : ℕ) {r : ℤ}
    (h : xspmWriteLoop rs buflen ret = some r) : r ≤ (ret + buflen : ℕ) := by
  induction rs generalizing buflen ret with
  | nil =>
    cases buflen with
    | zero => exact (Option.some.inj h).ge
    | succ n => cases h
  | cons x rs ih =>
    cases buflen with
    | zero =>
      rw [xspmWriteLoop] at h
      exact (Option.some.inj h).ge
    | succ n =>
      cases x with
      | written k =>
        rw [xspmWriteLoop] at h
        have hle := ih _ _ h
        have hsum : ret + min k (n + 1) + (n + 1 - min k (n + 1)) = ret + (n + 1) := by omega
        rwa [hsum] at hle
      | interrupted => exact ih _ _ h
      | wouldBlock =>
        obtain rfl := Option.some.inj h
        exact Int.ofNat_le.mpr (Nat.le_add_right ret (n + 1))
      | error =>
        obtain rfl := Option.some.inj h
        omega

/-- A write does not write more bytes than it is given. -/
theorem XdmaIsStream.le {env : Env} (h : XdmaIsStream env) (t n : ℕ) :
    env.writeXdmaData t n ≤ n := by
  obtain ⟨isOpen, rs, hres⟩ := h t n
  unfold xspmStramWrite at hres
  split_ifs at hres with hzero hopen
  · obtain hres := Option.some.inj hres
    omega
  · have hle := xspmWriteLoop_le rs n 0 hres
    rwa [Nat.zero_add] at hle
  · obtain hres := Option.some.inj hres
    omega

/-! ### The thread -/

/-- The result of the thread, with its sums. -/
structure LoadEnd where
  ret : ℤ
  totalWrite : ℤ := 0
  reminder : ℕ := 0
  deriving DecidableEq

/-- `_m57_loading_bitfile_to_fpga_thread`: nothing when it divides by zero. -/
def m57LoadingBitfileToFpgaThread (client : ℕ) (path : Path) (h : Host) : Option LoadEnd × Host :=
  match h.files.content path with
  | none => (some { ret := -1 }, h.emit (.loadStart client path []))
  | some file =>
      let fails := h.env.loadOpenFails h.now
      let h := h.emit (.loadStart client path file)
      if fails then
        (some { ret := -1 }, h)
      else if file = [] then
        (none, { h with exited := true })
      else
        let r := loadingLoop file.length file 0 0 h
        (some { ret := 0, totalWrite := r.1, reminder := r.2.1 }, r.2.2)

/-- `_m57_loading_bitfile_to_fpga` starts the thread and takes its result. -/
theorem m57LoadingBitfileToFpga_eq (client : ℕ) (path : Path) (h : Host) :
    m57LoadingBitfileToFpga client path h =
      ((m57LoadingBitfileToFpgaThread client path h).1.any fun r => r.ret == 0,
        (m57LoadingBitfileToFpgaThread client path h).2) := by
  unfold m57LoadingBitfileToFpga m57LoadingBitfileToFpgaThread
  cases h.files.content path with
  | none => rfl
  | some file =>
    dsimp only
    split_ifs <;> rfl

/-- The data of the writes to the FPGA between two moments. -/
def writtenData (before after : Host) : List (List UInt8) :=
  ((after.eventsOf .xdma).drop (before.eventsOf .xdma).length).filterMap fun e =>
    if let .xdma data := e then some data else none

/-- The blocks are written completely, one after the other from the moment `t` on. -/
def WrittenWhole (env : Env) : ℕ → List (List UInt8) → Prop
  | _, [] => True
  | t, b :: bs =>
      env.writeXdmaData t (padded b).length = (padded b).length ∧ WrittenWhole env (t + 1) bs

/-- What the thread should do with a file: it does not divide by zero; it passes no length above
4096 or not a multiple of four; when every write is complete the buffers are the file and less than
four zeros, and the sums agree; and they agree whenever the result is 0. -/
structure WritesFile (client : ℕ) (path : Path) (file : List UInt8) (h : Host) : Prop where
  divides : (m57LoadingBitfileToFpgaThread client path h).1 ≠ none
  lengths : ∀ data ∈ writtenData h (m57LoadingBitfileToFpgaThread client path h).2,
    data.length ≤ 4096 ∧ data.length % 4 = 0
  complete : h.env.loadOpenFails h.now = false →
    WrittenWhole h.env (h.now + 1) (blocks 4096 file) →
      ∃ k < 4, (writtenData h (m57LoadingBitfileToFpgaThread client path h).2).flatten =
          file ++ List.replicate k 0 ∧
        ∀ r, (m57LoadingBitfileToFpgaThread client path h).1 = some r →
          r.totalWrite = file.length + r.reminder
  ret : ∀ r, (m57LoadingBitfileToFpgaThread client path h).1 = some r → r.ret = 0 →
    r.totalWrite = file.length + r.reminder

/-! ### The blocks of a file -/

theorem length_padded (b : List UInt8) : (padded b).length = b.length + align4byte b.length := by
  rw [padded, List.length_append, List.length_replicate]

theorem align4byte_lt (n : ℕ) : align4byte n < 4 := by
  unfold align4byte
  split_ifs <;> omega

theorem length_padded_mod (b : List UInt8) : (padded b).length % 4 = 0 := by
  rw [length_padded, align4byte]
  split_ifs <;> omega

/-- A block is filled up within the buffer. -/
theorem length_padded_le {b : List UInt8} (hb : b.length ≤ 4096) : (padded b).length ≤ 4096 := by
  rw [length_padded, align4byte]
  split_ifs <;> omega

theorem length_of_mem_blocks {b file : List UInt8} (hb : b ∈ blocks 4096 file) :
    b.length ≤ 4096 := by
  obtain ⟨j, -, rfl⟩ := List.mem_map.mp hb
  exact List.length_take_le _ _

/-- The filled blocks are the file, and zeros behind it: only the last block is filled. -/
theorem flatten_padded_blocks (file : List UInt8) :
    ((blocks 4096 file).map padded).flatten =
      file ++ List.replicate (align4byte file.length) 0 := by
  by_cases hfile : file = []
  · rw [hfile, blocks_nil]
    rfl
  rw [blocks_of_ne_nil (by decide) hfile, List.map_cons, List.flatten_cons]
  rcases Nat.lt_or_ge 4096 file.length with hlt | hle
  · have hfull : padded (file.take 4096) = file.take 4096 := by
      have hlen : (file.take 4096).length = 4096 := List.length_take_of_le hlt.le
      rw [padded, hlen]
      exact List.append_nil _
    have halign : align4byte (file.drop 4096).length = align4byte file.length := by
      rw [List.length_drop, align4byte, align4byte]
      have hmod : (file.length - 4096) % 4 = file.length % 4 := by omega
      rw [hmod]
    rw [flatten_padded_blocks (file.drop 4096), hfull, halign, ← List.append_assoc,
      List.take_append_drop]
  · rw [List.take_of_length_le hle, List.drop_eq_nil_of_le hle, blocks_nil]
    exact List.append_nil _
termination_by file.length
decreasing_by
  rw [List.length_drop]
  omega

/-! ### The loop -/

/-- **The sums of the loop** differ at most by the bytes that are still to be read, and by exactly
these when every block is written completely; a block that is not ends the loop, or leaves bytes out
of the sum. -/
theorem loadingLoop_sums {k : ℕ} {rest : List UInt8} (hk : rest.length ≤ k) {h : Host}
    (hle : ∀ t n, h.env.writeXdmaData t n ≤ n) (total : ℤ) (reminder : ℕ) :
    (loadingLoop k rest total reminder h).1 - (loadingLoop k rest total reminder h).2.1 ≤
        total - reminder + rest.length ∧
      ((loadingLoop k rest total reminder h).1 - (loadingLoop k rest total reminder h).2.1 =
          total - reminder + rest.length ↔
        WrittenWhole h.env h.now (blocks 4096 rest)) := by
  induction k generalizing rest total reminder h with
  | zero =>
    obtain rfl := List.length_eq_zero_iff.mp (Nat.le_zero.mp hk)
    rw [blocks_nil]
    exact ⟨(add_zero _).ge, iff_of_true (add_zero _).symm trivial⟩
  | succ k ih =>
    by_cases hrest : rest = []
    · rw [loadingLoop, hrest, blocks_nil]
      exact ⟨(add_zero _).ge, iff_of_true (add_zero _).symm trivial⟩
    have hlen := List.length_pos_iff.mpr hrest
    have hblock : rest.take 4096 ≠ [] := by
      rw [ne_eq, List.take_eq_nil_iff]
      exact not_or.mpr ⟨by decide, hrest⟩
    have hsplit : (rest.take 4096).length + (rest.drop 4096).length = rest.length := by
      rw [← List.length_append, List.take_append_drop]
    have hblockPos := List.length_pos_iff.mpr hblock
    have hpadded := length_padded (rest.take 4096)
    have hwrite := writeXdmaData_of_ne_nil (padded_ne_nil hblock) h
    have hbound := hle h.now (padded (rest.take 4096)).length
    rw [blocks_of_ne_nil (by decide) hrest, WrittenWhole, loadingLoop]
    dsimp only
    rw [if_neg hblock, hwrite]
    dsimp only
    by_cases hrefused : h.env.writeXdmaData h.now (padded (rest.take 4096)).length ≤ 0
    · rw [if_pos hrefused]
      dsimp only
      refine ⟨by omega, iff_of_false (by omega) fun hwhole => ?_⟩
      rw [hwhole.1] at hrefused
      omega
    · rw [if_neg hrefused]
      have hih := ih (h := h.emit (.xdma (padded (rest.take 4096))))
        (show (rest.drop 4096).length ≤ k by omega) hle
        (total + h.env.writeXdmaData h.now (padded (rest.take 4096)).length)
        (reminder + align4byte (rest.take 4096).length)
      rw [now_emit] at hih
      obtain ⟨hsum, hwhole⟩ := hih
      refine ⟨by omega, ?_⟩
      have henv : (h.emit (.xdma (padded (rest.take 4096)))).env = h.env := rfl
      rw [henv] at hwhole
      rw [← hwhole]
      constructor
      · intro heq
        constructor <;> omega
      · rintro ⟨hfull, heq⟩
        omega

/-- When every block is written completely, all of them are written. -/
theorem passedBlocks_of_whole {env : Env} {t : ℕ} {bs : List (List UInt8)}
    (hbs : ∀ b ∈ bs, b ≠ []) (hwhole : WrittenWhole env t bs) : passedBlocks env t bs = bs := by
  induction bs generalizing t with
  | nil => rfl
  | cons b bs ih =>
    obtain ⟨hb, hbs⟩ := List.forall_mem_cons.mp hbs
    obtain ⟨hfirst, hthen⟩ := hwhole
    have hpos := List.length_pos_iff.mpr (padded_ne_nil hb)
    rw [passedBlocks, if_neg (by omega), ih hbs hthen]

/-! ### The thread -/

section Thread

variable {client : ℕ} {path : Path} {file : List UInt8} {h : Host}

/-- The host of a thread that has opened a file. -/
theorem eventsOf_loadStart (client : ℕ) (path : Path) (content : List UInt8) (h : Host) :
    (h.emit (.loadStart client path content)).eventsOf .xdma = h.eventsOf .xdma := by
  rw [Host.eventsOf_emit]
  exact List.append_nil _

theorem thread_of_fails (hfile : h.files.content path = some file)
    (hfails : h.env.loadOpenFails h.now = true) :
    m57LoadingBitfileToFpgaThread client path h =
      (some { ret := -1 }, h.emit (.loadStart client path file)) := by
  unfold m57LoadingBitfileToFpgaThread
  rw [hfile]
  dsimp only
  rw [if_pos hfails]

theorem thread_of_nil (hfile : h.files.content path = some [])
    (hopens : h.env.loadOpenFails h.now = false) :
    (m57LoadingBitfileToFpgaThread client path h).1 = none := by
  unfold m57LoadingBitfileToFpgaThread
  rw [hfile]
  dsimp only
  rw [hopens]
  rfl

theorem thread_of_opens (client : ℕ) (hfile : h.files.content path = some file)
    (hopens : h.env.loadOpenFails h.now = false) (hne : file ≠ []) :
    m57LoadingBitfileToFpgaThread client path h =
      (some { ret := 0
              totalWrite := (loadingLoop file.length file 0 0
                (h.emit (.loadStart client path file))).1
              reminder := (loadingLoop file.length file 0 0
                (h.emit (.loadStart client path file))).2.1 },
        (loadingLoop file.length file 0 0 (h.emit (.loadStart client path file))).2.2) := by
  unfold m57LoadingBitfileToFpgaThread
  rw [hfile]
  dsimp only
  rw [hopens, if_neg Bool.false_ne_true, if_neg hne]

/-- The buffers of writes of blocks. -/
theorem writtenData_of_blockWrites {after : Host} {bs : List (List UInt8)}
    (hafter : after.eventsOf .xdma = h.eventsOf .xdma ++ blockWrites bs) :
    writtenData h after = bs.map padded := by
  rw [writtenData, hafter, List.drop_left, blockWrites, List.filterMap_map]
  exact congrFun (List.filterMap_eq_map (f := padded)) bs

/-- Whatever the writes return, no length is above 4096 or not a multiple of four. -/
theorem length_of_mem_writtenData (client : ℕ) (path : Path) (h : Host) :
    ∀ data ∈ writtenData h (m57LoadingBitfileToFpgaThread client path h).2,
      data.length ≤ 4096 ∧ data.length % 4 = 0 := by
  have hevents : ∃ bs, (∀ b ∈ bs, b.length ≤ 4096) ∧
      (m57LoadingBitfileToFpgaThread client path h).2.eventsOf .xdma =
        h.eventsOf .xdma ++ blockWrites bs := by
    rcases eventsOf_xdma_loadingBitfile client path h with ⟨-, hnone⟩ |
      ⟨-, -, content, bs, -, hbs, hwrites⟩
    · refine ⟨[], fun b hb => absurd hb List.not_mem_nil, ?_⟩
      rw [m57LoadingBitfileToFpga_eq] at hnone
      exact hnone.trans (List.append_nil _).symm
    · rw [m57LoadingBitfileToFpga_eq] at hwrites
      exact ⟨bs, fun b hb => length_of_mem_blocks (hbs.isPrefix.subset hb), hwrites⟩
  obtain ⟨bs, hbs, hwrites⟩ := hevents
  rw [writtenData_of_blockWrites hwrites]
  exact List.forall_mem_map.mpr fun b hb => ⟨length_padded_le (hbs b hb), length_padded_mod b⟩

/-- **What the thread does with a file** is what it should exactly when the file cannot be opened,
or is not empty and every block of it is written completely. -/
theorem writesFile_iff (client : ℕ) (path : Path) (file : List UInt8) (h : Host)
    (hfile : h.files.content path = some file) (hstream : XdmaIsStream h.env) :
    WritesFile client path file h ↔
      h.env.loadOpenFails h.now = true ∨
        file ≠ [] ∧ WrittenWhole h.env (h.now + 1) (blocks 4096 file) := by
  have hlengths := length_of_mem_writtenData client path h
  cases hopens : h.env.loadOpenFails h.now with
  | true =>
    refine iff_of_true ⟨?_, hlengths, fun hnot => ?_, fun r hr hret => ?_⟩ (.inl rfl)
    · rw [thread_of_fails hfile hopens]
      exact Option.some_ne_none _
    · exact absurd (hopens.symm.trans hnot) Bool.false_ne_true.symm
    · rw [thread_of_fails hfile hopens] at hr
      obtain rfl := Option.some.inj hr
      exact absurd hret (by decide)
  | false =>
    have hsimp : (false = true ∨ file ≠ [] ∧ WrittenWhole h.env (h.now + 1) (blocks 4096 file)) ↔
        file ≠ [] ∧ WrittenWhole h.env (h.now + 1) (blocks 4096 file) :=
      or_iff_right Bool.false_ne_true
    rw [hsimp]
    by_cases hne : file = []
    · subst hne
      exact iff_of_false (fun hwrites => hwrites.divides (thread_of_nil hfile hopens))
        fun hcond => hcond.1 rfl
    have hthread := thread_of_opens client hfile hopens hne
    have hnow := now_emit (.loadStart client path file) h
    obtain ⟨-, hsums⟩ := loadingLoop_sums (le_refl file.length)
      (h := h.emit (.loadStart client path file)) hstream.le 0 0
    have henv : (h.emit (.loadStart client path file)).env = h.env := rfl
    rw [hnow, henv] at hsums
    refine Iff.trans ?_ (and_iff_right hne).symm
    constructor
    · intro hwrites
      have hret := hwrites.ret _ (congrArg Prod.fst hthread) rfl
      refine hsums.mp ?_
      dsimp only at hret
      omega
    · intro hwhole
      have hsum := hsums.mpr hwhole
      have hwritten : writtenData h (m57LoadingBitfileToFpgaThread client path h).2 =
          (blocks 4096 file).map padded := by
        refine writtenData_of_blockWrites ?_
        rw [hthread]
        have htrace := trace_loadingLoop (le_refl file.length) 0 0
          (h.emit (.loadStart client path file))
        rw [hnow, henv, passedBlocks_of_whole (fun _ => ne_nil_of_mem_blocks) hwhole] at htrace
        rw [eventsOf_of_trace_blockWrites htrace, eventsOf_loadStart]
      have htotal : ∀ r, (m57LoadingBitfileToFpgaThread client path h).1 = some r →
          r.totalWrite = file.length + r.reminder := by
        intro r hr
        rw [hthread] at hr
        obtain rfl := Option.some.inj hr
        dsimp only
        omega
      refine ⟨?_, hlengths, fun _ _ => ⟨align4byte file.length, align4byte_lt _, ?_, htotal⟩,
        fun r hr _ => htotal r hr⟩
      · rw [hthread]
        exact Option.some_ne_none _
      · rw [hwritten, flatten_padded_blocks]

end Thread

/-! ### Two files -/

/-- A host with one file, and an environment in which every operation succeeds. -/
def hostWith (path : Path) (file : List UInt8) : Host where
  env := Env.reliable
  files := FileTable.empty.setContent path file

theorem xdmaIsStream_reliable : XdmaIsStream Env.reliable := by
  intro t n
  refine ⟨true, [.written n], ?_⟩
  cases n with
  | zero => rfl
  | succ n =>
    rw [xspmStramWrite, if_neg (Nat.succ_ne_zero n), if_pos rfl, xspmWriteLoop, Nat.min_self,
      Nat.sub_self, xspmWriteLoop, Nat.zero_add]
    rfl

/-- Five bytes are written with three zeros. -/
theorem writesFile_five :
    WritesFile 0 ['a'] [1, 2, 3, 4, 5] (hostWith ['a'] [1, 2, 3, 4, 5]) :=
  (writesFile_iff 0 ['a'] [1, 2, 3, 4, 5] (hostWith ['a'] [1, 2, 3, 4, 5]) rfl
    xdmaIsStream_reliable).mpr (.inr ⟨by decide, rfl, trivial⟩)

/-- The size of an empty file is a divisor. -/
theorem not_writesFile_nil : ¬ WritesFile 0 ['a'] [] (hostWith ['a'] []) :=
  fun h => h.divides rfl

end M57Card.M57
