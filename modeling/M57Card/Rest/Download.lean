import Mathlib.Data.Int.ModEq
import Mathlib.Logic.Function.Basic
import M57Card.Lib.Memory
import M57Card.Lib.Runs

/-!
# Buffered downloads

A download reads a file through one buffer for all clients (`request_file.c`, lines 143–289):
`file_read_attr` sets the state up, and each `file_read` returns bytes from the buffer, which it has
the device fill again when it is used up. An answer `0` of the device leaves the old bytes in the
buffer, and they are sent again; and a second `file_read_attr` takes the state away from the first
download.

## Main definitions

* `readmem`, `fileRead`, `fileReadAttr` : the model.
* `Download.Right` : what a download has sent.
* `Served` : the calls that keep it.

## Main results

* `downloads_right` : downloads whose calls are all served are right.
-/

namespace M57Card.Rest

/-! ### The model -/

/-- `disk_file_info`, as far as a download uses it. -/
structure DiskFileInfo where
  bufferRxLen : ℕ
  stSize : ℕ
  stBlksize : ℕ
  stBlksize_pos : 0 < stBlksize

/-- `file_request_read` with the memory of its buffer. -/
structure FileRequestRead where
  readBuffer : Mem
  readBufferLen : ℕ
  readBufferOffset : ℕ
  stBlkbgSize : ℕ
  stSize : ℕ
  offsetSize : ℕ
  isBufferHasData : Bool

/-- A download: the answers of the device, the bytes that the device has put into the buffer, the
bytes that `file_read` has returned, and whether it has returned `0`. -/
structure Download where
  info : DiskFileInfo
  pos : ℕ
  exhausted : Bool
  sent : List UInt8
  ended : Bool

/-- `readmem`: the result, the bytes and the new state. -/
def readmem (n : ℕ) (fr : FileRequestRead) : ℤ × List UInt8 × FileRequestRead :=
  if fr.isBufferHasData = false then (-1, [], fr)
  else if fr.readBufferLen ≤ fr.readBufferOffset then (0, [], { fr with readBufferOffset := 0 })
  else
    let n := min n (fr.readBufferLen - fr.readBufferOffset)
    (n, fr.readBuffer.slice fr.readBufferOffset n,
      { fr with readBufferOffset := fr.readBufferOffset + n })

/-- The device answers `file_reload_buffer` with `ret`: it puts the next `ret` blocks of the file
into the buffer. -/
def fileReloadBuffer (file : Mem) (ret : ℤ) (fr : FileRequestRead) (d : Download) :
    FileRequestRead × Download :=
  let count := ret.toNat * d.info.stBlksize
  ({ fr with readBuffer := fr.readBuffer.write 0 file d.pos count },
    { d with pos := d.pos + count, exhausted := d.exhausted || ret == 0 })

/-- The loop of `file_read`; `ret` is the last answer of the device and `results` are the next
ones. -/
def fileReadLoop (file : Mem) : ℕ → ℤ → (ℕ → ℤ) → ℕ → FileRequestRead → Download →
    Option (ℤ × List UInt8 × FileRequestRead × Download)
  | 0, _, _, _, _, _ => none
  | fuel + 1, ret, results, n, fr, d =>
      let (nread, bytes, fr) := readmem n fr
      if nread ≤ 0 then
        let fr := { fr with isBufferHasData := false }
        if nread = 0 ∧ ret = 0 then some (0, [], fr, d)
        else
          let ret := results 0
          let (fr, d) := fileReloadBuffer file ret fr d
          if ret < 0 then some (ret, [], fr, d)
          else
            let len := if 0 < ret then ret.toNat * fr.stBlkbgSize % 2 ^ 32 else fr.readBufferLen
            fileReadLoop file fuel ret (fun i => results (i + 1)) n
              { fr with isBufferHasData := true, readBufferLen := len } d
      else
        let fr := { fr with offsetSize := fr.offsetSize + nread.toNat }
        if fr.stSize < fr.offsetSize then some (0, [], fr, d) else some (nread, bytes, fr, d)

/-- `nleft`. -/
def FileRequestRead.nleft (fr : FileRequestRead) : ℤ :=
  Int.bmod ((fr.stSize : ℤ) - fr.offsetSize) (2 ^ 64)

/-- `file_read`. -/
def fileRead (file : Mem) (fuel : ℕ) (results : ℕ → ℤ) (n : ℕ) (fr : FileRequestRead)
    (d : Download) : Option (ℤ × List UInt8 × FileRequestRead × Download) :=
  if fr.nleft ≤ 0 then some (0, [], fr, d)
  else fileReadLoop file fuel (-1) results (min n fr.nleft.toNat) fr d

/-- `file_read_attr`, when it has the attributes of the file. -/
def fileReadAttr (info : DiskFileInfo) (fr : FileRequestRead) : FileRequestRead :=
  { fr with
    readBufferLen := info.bufferRxLen
    readBufferOffset := 0
    offsetSize := 0
    stSize := info.stSize
    isBufferHasData := false
    stBlkbgSize := info.stBlksize }

/-- The state for all clients, the client of the last `file_read_attr`, and the downloads. -/
structure Downloads (ι : Type*) where
  fr : FileRequestRead
  owner : Option ι
  download : ι → Option Download
  hung : Bool

/-- A call of a client. -/
inductive DownloadStep (ι : Type*) where
  | readAttr (k : ι) (ret : ℤ) (info : DiskFileInfo)
  | read (k : ι) (n : ℕ+) (results : ℕ → ℤ)

variable {ι : Type*} [DecidableEq ι]

/-- The state behind a call; the request is done when a call has returned `0`. -/
def downloadStep (file : ι → Mem) (fuel : ℕ) (s : Downloads ι) : DownloadStep ι → Downloads ι
  | .readAttr k ret info =>
      if ret = -1 then s
      else
        { s with
          fr := fileReadAttr info s.fr
          owner := some k
          download := Function.update s.download k (some ⟨info, 0, false, [], false⟩) }
  | .read k n results =>
      match s.download k with
      | none => s
      | some d =>
          if d.ended then s
          else
            match fileRead (file k) fuel results n s.fr d with
            | none => { s with hung := true }
            | some (r, bytes, fr, d) =>
                { s with
                  fr := fr
                  download := Function.update s.download k
                    (some { d with sent := d.sent ++ bytes, ended := r == 0 }) }

/-- No download. -/
def Downloads.init (fr : FileRequestRead) : Downloads ι := ⟨fr, none, fun _ => none, false⟩

/-! ### Right downloads -/

/-- The bytes that the device has delivered, cut at the size of the file. -/
def Download.delivered (file : Mem) (d : Download) : List UInt8 :=
  (file.slice 0 d.pos).take d.info.stSize

/-- The bytes that were sent are the first ones of those delivered; all of them at the end, when the
whole file is delivered or the device has no more. -/
structure Download.Right (file : Mem) (d : Download) : Prop where
  isPrefix : d.sent <+: d.delivered file
  ended : d.ended = true →
    d.sent = d.delivered file ∧ (d.info.stSize ≤ d.pos ∨ d.exhausted = true)

/-- All downloads are right, and every call has returned. -/
structure Downloads.Right (file : ι → Mem) (s : Downloads ι) : Prop where
  right : ∀ k d, s.download k = some d → d.Right (file k)
  hung : s.hung = false

/-- The next `file_read` has the buffer filled. -/
def FileRequestRead.Reloads (fr : FileRequestRead) : Prop :=
  fr.offsetSize < fr.stSize ∧
    (fr.isBufferHasData = false ∨ fr.readBufferLen ≤ fr.readBufferOffset)

/-- The state belongs to the client that reads, what is left of the file is less than `2 ^ 63`
bytes, and the device, when it is asked, fills less than `2 ^ 32` bytes of the buffer; it answers
`0` only when the length of the buffer is zero. -/
def Served (s : Downloads ι) : DownloadStep ι → Prop
  | .readAttr _ _ _ => True
  | .read k _ results => ∀ d, s.download k = some d → d.ended = false →
      s.owner = some k ∧ s.fr.stSize - s.fr.offsetSize < 2 ^ 63 ∧
        (s.fr.Reloads → (results 0 = 0 → s.fr.readBufferLen = 0) ∧
          (results 0).toNat * s.fr.stBlkbgSize < 2 ^ 32)

/-! ### A read -/

section Read

variable {file : Mem} {fr : FileRequestRead} {d : Download} {n : ℕ} {results : ℕ → ℤ}

/-- The state of the client that reads: what was sent is the start of the file, and the rest of the
buffer is what the device has delivered behind it. -/
structure Synced (file : Mem) (fr : FileRequestRead) (d : Download) : Prop where
  stSize : fr.stSize = d.info.stSize
  blk : fr.stBlkbgSize = d.info.stBlksize
  sent : d.sent = file.slice 0 fr.offsetSize
  offset_le : fr.offsetSize ≤ fr.stSize
  window : fr.isBufferHasData = true → fr.readBufferOffset ≤ fr.readBufferLen ∧
    d.pos = fr.offsetSize + (fr.readBufferLen - fr.readBufferOffset) ∧
    ∀ j < fr.readBufferLen - fr.readBufferOffset,
      fr.readBuffer (fr.readBufferOffset + j) = file (fr.offsetSize + j)
  empty : fr.isBufferHasData = false → fr.readBufferOffset = 0 ∧ d.pos = fr.offsetSize

/-- The result of a read that leaves the state in order: `0` comes at the end only. -/
structure ReadResult (file : Mem) (r : ℤ) (bytes : List UInt8) (fr : FileRequestRead)
    (d : Download) : Prop where
  synced : Synced file fr { d with sent := d.sent ++ bytes }
  ended : r = 0 → bytes = [] ∧
    (d.info.stSize ≤ fr.offsetSize ∨ d.pos = fr.offsetSize ∧ d.exhausted = true)

theorem Synced.offset_le_pos (h : Synced file fr d) : fr.offsetSize ≤ d.pos := by
  cases hdata : fr.isBufferHasData with
  | false => exact (h.empty hdata).2.ge
  | true =>
    rw [(h.window hdata).2.1]
    exact Nat.le_add_right _ _

/-- What is left of the file. -/
theorem Synced.nleft_eq (h : Synced file fr d) (hlt : fr.stSize - fr.offsetSize < 2 ^ 63) :
    fr.nleft = ((fr.stSize - fr.offsetSize : ℕ) : ℤ) := by
  have hle := h.offset_le
  rw [FileRequestRead.nleft, Int.bmod_eq_of_le (by omega) (by omega)]
  omega

/-- A read from a buffer that has bytes left. -/
theorem Synced.loop_data (fuel : ℕ) (ret : ℤ) (results : ℕ → ℤ) (h : Synced file fr d)
    (hdata : fr.isBufferHasData = true)
    (hlt : fr.readBufferOffset < fr.readBufferLen) (hn : 0 < n)
    (hleft : n ≤ fr.stSize - fr.offsetSize) :
    ∃ r bytes fr', fileReadLoop file (fuel + 1) ret results n fr d = some (r, bytes, fr', d) ∧
      ReadResult file r bytes fr' d := by
  let m := min n (fr.readBufferLen - fr.readBufferOffset)
  have hm : 0 < m := lt_min hn (Nat.sub_pos_of_lt hlt)
  have hmn : m ≤ n := Nat.min_le_left _ _
  have hmlen : m ≤ fr.readBufferLen - fr.readBufferOffset := Nat.min_le_right _ _
  obtain ⟨-, hpos, hwindow⟩ := h.window hdata
  have hread : readmem n fr = ((m : ℤ), fr.readBuffer.slice fr.readBufferOffset m,
      { fr with readBufferOffset := fr.readBufferOffset + m }) := by
    rw [readmem, if_neg (by rw [hdata]; decide), if_neg (Nat.not_le.mpr hlt)]
  have hbytes : fr.readBuffer.slice fr.readBufferOffset m = file.slice (0 + fr.offsetSize) m := by
    refine Mem.slice_congr fun i hi => ?_
    rw [Nat.zero_add]
    exact hwindow i (hi.trans_le hmlen)
  refine ⟨m, fr.readBuffer.slice fr.readBufferOffset m, { fr with
    readBufferOffset := fr.readBufferOffset + m
    offsetSize := fr.offsetSize + m }, ?_, ?_, ?_⟩
  · rw [fileReadLoop, hread]
    dsimp only
    rw [if_neg (by omega), Int.toNat_natCast, if_neg (by omega)]
  · refine ⟨h.stSize, h.blk, ?_, ?_, fun _ => ⟨?_, ?_, ?_⟩, fun hnone => ?_⟩
    · dsimp only
      rw [h.sent, hbytes, Mem.slice_add]
    · dsimp only
      omega
    · dsimp only
      omega
    · dsimp only
      omega
    · intro j hj
      dsimp only at hj ⊢
      rw [Nat.add_assoc, Nat.add_assoc]
      exact hwindow (m + j) (by omega)
    · exact absurd (hdata.symm.trans hnone) (by decide)
  · intro hzero
    omega

/-- A buffer that is used up. -/
theorem Synced.readmem_empty (h : Synced file fr d)
    (hempty : fr.isBufferHasData = false ∨ fr.readBufferLen ≤ fr.readBufferOffset) :
    d.pos = fr.offsetSize ∧ ∃ r fr', readmem n fr = (r, [], fr') ∧ r ≤ 0 ∧
      { fr' with isBufferHasData := false } =
        { fr with readBufferOffset := 0, isBufferHasData := false } := by
  cases hdata : fr.isBufferHasData with
  | false =>
    obtain ⟨hoffset, hpos⟩ := h.empty hdata
    refine ⟨hpos, -1, fr, ?_, by decide, ?_⟩
    · rw [readmem, if_pos hdata]
    · rw [hoffset]
  | true =>
    obtain ⟨hle, hpos, -⟩ := h.window hdata
    have hge : fr.readBufferLen ≤ fr.readBufferOffset :=
      hempty.resolve_left (by rw [hdata]; decide)
    refine ⟨by omega, 0, { fr with readBufferOffset := 0 }, ?_, Int.le_refl 0, rfl⟩
    rw [readmem, if_neg (by rw [hdata]; decide), if_pos hge]

/-- The buffer behind `count` bytes of the device. -/
theorem Synced.reload (h : Synced file fr d) (hpos : d.pos = fr.offsetSize) (count : ℕ)
    (exhausted : Bool) : Synced file { fr with
        readBuffer := fr.readBuffer.write 0 file d.pos count
        readBufferLen := count
        readBufferOffset := 0
        isBufferHasData := true } { d with
        pos := d.pos + count
        exhausted := exhausted } := by
  refine ⟨h.stSize, h.blk, h.sent, h.offset_le, fun _ => ⟨Nat.zero_le _, ?_, ?_⟩,
    fun hnone => Bool.noConfusion hnone⟩
  · exact congrArg (· + count) hpos
  · intro j hj
    have hin : 0 ≤ 0 + j ∧ 0 + j < 0 + count := ⟨Nat.zero_le _, by simpa using hj⟩
    dsimp only
    rw [Mem.write, if_pos hin, Nat.zero_add, Nat.sub_zero, hpos]

/-- A read that has the buffer filled. -/
theorem Synced.loop_reload (fuel : ℕ) (h : Synced file fr d)
    (hempty : fr.isBufferHasData = false ∨ fr.readBufferLen ≤ fr.readBufferOffset)
    (hn : 0 < n) (hleft : n ≤ fr.stSize - fr.offsetSize)
    (hzero : results 0 = 0 → fr.readBufferLen = 0)
    (hlt : (results 0).toNat * fr.stBlkbgSize < 2 ^ 32) :
    ∃ r bytes fr' d', fileReadLoop file (fuel + 2) (-1) results n fr d = some (r, bytes, fr', d') ∧
      ReadResult file r bytes fr' d' := by
  obtain ⟨hpos, r, fr₀, hread, hr, hfr₀⟩ := h.readmem_empty (n := n) hempty
  rw [fileReadLoop, hread]
  dsimp only
  rw [if_pos hr, if_neg (by omega), hfr₀]
  rw [fileReloadBuffer]
  dsimp only
  rcases Int.lt_trichotomy (results 0) 0 with hneg | hnone | hmore
  · -- an error
    rw [if_pos hneg]
    refine ⟨_, _, _, _, rfl, ⟨h.stSize, h.blk, ?_, h.offset_le, ?_, ?_⟩, fun hzero => ?_⟩
    · exact (List.append_nil _).trans h.sent
    · exact fun hdata => Bool.noConfusion hdata
    · rw [Int.toNat_of_nonpos hneg.le, Nat.zero_mul]
      exact fun _ => ⟨rfl, hpos⟩
    · omega
  · -- the device has no more, and the buffer is empty
    have hlen := hzero hnone
    rw [if_neg (by omega), hnone, if_neg (Int.lt_irrefl 0), hlen, fileReadLoop, readmem]
    refine ⟨0, [], { fr with
      readBuffer := fr.readBuffer.write 0 file d.pos ((0 : ℤ).toNat * d.info.stBlksize)
      readBufferLen := 0
      readBufferOffset := 0
      isBufferHasData := false }, { d with
      pos := d.pos + (0 : ℤ).toNat * d.info.stBlksize
      exhausted := d.exhausted || (0 : ℤ) == 0 }, ?_, ?_, ?_⟩
    · rfl
    · refine ⟨h.stSize, h.blk, ?_, h.offset_le, fun hdata => Bool.noConfusion hdata, ?_⟩
      · exact (List.append_nil _).trans h.sent
      · exact fun _ => ⟨rfl, (congrArg (d.pos + ·) (Nat.zero_mul _)).trans hpos⟩
    · exact fun _ =>
        ⟨rfl, .inr ⟨(congrArg (d.pos + ·) (Nat.zero_mul _)).trans hpos, Bool.or_true _⟩⟩
  · -- the next blocks of the file
    let count := (results 0).toNat * d.info.stBlksize
    have hblk : (results 0).toNat * fr.stBlkbgSize = count := by rw [h.blk]
    have hcount : 0 < count := Nat.mul_pos (by omega) d.info.stBlksize_pos
    rw [if_neg (by omega), if_pos hmore, Nat.mod_eq_of_lt hlt, hblk]
    obtain ⟨r, bytes, fr', hloop, hresult⟩ :=
      (h.reload hpos count (d.exhausted || results 0 == 0)).loop_data fuel (results 0)
        (fun i => results (i + 1)) rfl hcount hn hleft
    exact ⟨r, bytes, fr', _, hloop, hresult⟩

/-- A read that is served. -/
theorem Synced.fileRead (fuel : ℕ) (h : Synced file fr d) (hn : 0 < n)
    (hsize : fr.stSize - fr.offsetSize < 2 ^ 63)
    (hreload : fr.Reloads → (results 0 = 0 → fr.readBufferLen = 0) ∧
      (results 0).toNat * fr.stBlkbgSize < 2 ^ 32) :
    ∃ r bytes fr' d', fileRead file (fuel + 2) results n fr d = some (r, bytes, fr', d') ∧
      ReadResult file r bytes fr' d' := by
  have hnleft := h.nleft_eq hsize
  rw [Rest.fileRead]
  split_ifs with hover
  · -- the whole file is sent
    refine ⟨0, [], fr, d, rfl, ?_, fun _ => ⟨rfl, .inl ?_⟩⟩
    · rw [List.append_nil]
      exact h
    · have hstSize := h.stSize
      omega
  · have hleft : min n fr.nleft.toNat ≤ fr.stSize - fr.offsetSize := by omega
    have hmin : 0 < min n fr.nleft.toNat := by omega
    by_cases hempty : fr.isBufferHasData = false ∨ fr.readBufferLen ≤ fr.readBufferOffset
    · obtain ⟨hzero, hlt⟩ := hreload ⟨by omega, hempty⟩
      exact h.loop_reload fuel hempty hmin hleft hzero hlt
    · obtain ⟨hdata, hlt⟩ := not_or.mp hempty
      obtain ⟨r, bytes, fr', hloop, hresult⟩ := h.loop_data (fuel + 1) (-1) results
        (eq_true_of_ne_false hdata) (Nat.lt_of_not_le hlt) hmin hleft
      exact ⟨r, bytes, fr', d, hloop, hresult⟩

theorem delivered_eq (file : Mem) (d : Download) :
    d.delivered file = file.slice 0 (min d.info.stSize d.pos) := by
  rw [Download.delivered]
  rcases Nat.le_total d.info.stSize d.pos with hle | hle
  · rw [Nat.min_eq_left hle, Mem.take_slice file 0 hle]
  · rw [Nat.min_eq_right hle]
    exact List.take_of_length_le ((file.length_slice 0 d.pos).trans_le hle)

/-- What was sent behind a read is right. -/
theorem ReadResult.right {r : ℤ} {bytes : List UInt8} (h : ReadResult file r bytes fr d) :
    Download.Right file { d with sent := d.sent ++ bytes, ended := r == 0 } := by
  have hsent : d.sent ++ bytes = file.slice 0 fr.offsetSize := h.synced.sent
  have hsize : fr.stSize = d.info.stSize := h.synced.stSize
  have hle := h.synced.offset_le
  have hpos : fr.offsetSize ≤ d.pos := h.synced.offset_le_pos
  constructor
  · rw [delivered_eq, hsent]
    obtain ⟨rest, hrest⟩ := Nat.exists_eq_add_of_le (le_min (hsize ▸ hle) hpos)
    dsimp only
    rw [hrest, Mem.slice_add]
    exact List.prefix_append _ _
  · intro hended
    obtain ⟨-, hsize' | ⟨hpos', hover⟩⟩ := h.ended (beq_iff_eq.mp hended)
    · refine ⟨?_, .inl (hsize'.trans hpos)⟩
      rw [delivered_eq, hsent]
      dsimp only
      rw [Nat.min_eq_left (hsize'.trans hpos), ← hsize, Nat.le_antisymm hle (hsize ▸ hsize')]
    · refine ⟨?_, .inr hover⟩
      rw [delivered_eq, hsent]
      dsimp only
      rw [hpos', Nat.min_eq_right (hsize ▸ hle)]

end Read

/-! ### Runs -/

section Runs

variable {ι : Type*} [DecidableEq ι] {file : ι → Mem} {s : Downloads ι} {a : DownloadStep ι}

/-- Right downloads, with the state of the one that has it in order. -/
structure Kept (file : ι → Mem) (s : Downloads ι) : Prop where
  right : s.Right file
  synced : ∀ k d, s.owner = some k → s.download k = some d → d.ended = false →
    Synced (file k) s.fr d

/-- A download that starts. -/
theorem Kept.readAttr {k : ι} {ret : ℤ} {info : DiskFileInfo} (h : Kept file s) (fuel : ℕ) :
    Kept file (downloadStep file fuel s (.readAttr k ret info)) := by
  rw [downloadStep]
  split_ifs with hret
  · exact h
  refine ⟨⟨fun j d hd => ?_, h.right.hung⟩, fun j d hj hd hended => ?_⟩
  · dsimp only at hd
    rw [Function.update_apply] at hd
    split_ifs at hd with hjk
    · obtain rfl := Option.some.inj hd
      exact ⟨List.nil_prefix, fun hended => Bool.noConfusion hended⟩
    · exact h.right.right j d hd
  · obtain rfl : k = j := Option.some.inj hj
    dsimp only at hd
    rw [Function.update_self] at hd
    obtain rfl := Option.some.inj hd
    exact ⟨rfl, rfl, rfl, Nat.zero_le _, fun hdata => Bool.noConfusion hdata, fun _ => ⟨rfl, rfl⟩⟩

/-- A read that is served. -/
theorem Kept.read {k : ι} {n : ℕ+} {results : ℕ → ℤ} (h : Kept file s) (fuel : ℕ)
    (hserved : Served s (.read k n results)) :
    Kept file (downloadStep file (fuel + 2) s (.read k n results)) := by
  rw [downloadStep]
  cases hdownload : s.download k with
  | none => exact h
  | some d =>
    dsimp only
    split_ifs with hended
    · exact h
    obtain ⟨howner, hsize, hreload⟩ := hserved d hdownload (eq_false_of_ne_true hended)
    have hsynced := h.synced k d howner hdownload (eq_false_of_ne_true hended)
    obtain ⟨r, bytes, fr, d', hread, hresult⟩ :=
      hsynced.fileRead fuel n.pos hsize hreload
    rw [hread]
    dsimp only
    refine ⟨⟨fun j e he => ?_, h.right.hung⟩, fun j e hj he hended => ?_⟩
    · dsimp only at he
      rw [Function.update_apply] at he
      split_ifs at he with hjk
      · obtain rfl := Option.some.inj he
        exact hjk ▸ hresult.right
      · exact h.right.right j e he
    · obtain rfl : k = j := Option.some.inj (howner.symm.trans hj)
      dsimp only at he
      rw [Function.update_self] at he
      obtain rfl := Option.some.inj he
      have hafter := hresult.synced
      exact ⟨hafter.stSize, hafter.blk, hafter.sent, hafter.offset_le, hafter.window, hafter.empty⟩

end Runs

/-- Downloads whose calls are all served are right in every state, and every call returns. -/
theorem downloads_right {ι : Type*} [DecidableEq ι] (file : ι → Mem) (fr : FileRequestRead)
    (fuel : ℕ) (as : List (DownloadStep ι))
    (hall : ∀ pre a, pre ++ [a] <+: as →
      Served (pre.foldl (downloadStep file (fuel + 2)) (Downloads.init fr)) a)
    (pre : List (DownloadStep ι)) (hpre : pre <+: as) :
    (pre.foldl (downloadStep file (fuel + 2)) (Downloads.init fr)).Right file := by
  refine (forall_states_of (P := Kept file) (C := Served) ⟨⟨?_, rfl⟩, ?_⟩ ?_ hall pre hpre).right
  · intro k d hd
    cases hd
  · intro k d hk
    cases hk
  · intro s a h hserved
    cases a with
    | readAttr k ret info => exact h.readAttr (fuel + 2)
    | read k n results => exact h.read fuel hserved

/-- Two files. -/
def twoFiles (k : ℕ) : Mem := fun i => UInt8.ofNat (10 * k + i)

/-- The state of the program at the start. -/
def emptyRequest : FileRequestRead where
  readBuffer _ := 0
  readBufferLen := 0
  readBufferOffset := 0
  stBlkbgSize := 0
  stSize := 0
  offsetSize := 0
  isBufferHasData := false

/-- A file of three bytes in blocks of two. -/
def threeBytes : DiskFileInfo where
  bufferRxLen := 8
  stSize := 3
  stBlksize := 2
  stBlksize_pos := by decide

/-- A download of two blocks, for the second of which the buffer is filled again, and a download of
another file behind it, whose first block is read in two calls. -/
def twoDownloads : List (DownloadStep ℕ) :=
  [.readAttr 0 0 threeBytes, .read 0 4 fun _ => 1, .read 0 4 fun _ => 1, .readAttr 1 0 threeBytes,
    .read 1 1 fun _ => 1, .read 1 4 fun _ => 1]

/-- The second download goes on from its second byte while the first one is complete. -/
theorem downloads_right_two :
    (twoDownloads.foldl (downloadStep twoFiles (0 + 2)) (Downloads.init emptyRequest)).Right
        twoFiles ∧
      (((twoDownloads.foldl (downloadStep twoFiles (0 + 2)) (Downloads.init emptyRequest)).download
        0).map Download.sent = some [0, 1, 2]) ∧
      (((twoDownloads.foldl (downloadStep twoFiles (0 + 2)) (Downloads.init emptyRequest)).download
        1).map Download.sent = some [10, 11]) := by
  refine ⟨downloads_right twoFiles emptyRequest 0 twoDownloads ?_ _ List.prefix_rfl, by decide,
    by decide⟩
  refine forall_step_cons.mpr ⟨trivial, forall_step_cons.mpr ⟨?_, forall_step_cons.mpr ⟨?_,
    forall_step_cons.mpr ⟨trivial, forall_step_cons.mpr ⟨?_, forall_step_cons.mpr ⟨?_,
      forall_step_nil⟩⟩⟩⟩⟩⟩
  all_goals exact fun _ _ _ => ⟨rfl, by decide, fun _ => ⟨by decide, by decide⟩⟩

/-- A block that is sent twice when the device has no more, and a byte of another file. -/
theorem not_downloads_right :
    ¬ ([DownloadStep.readAttr 0 0 threeBytes, .read 0 4 fun _ => 1, .read 0 4 fun _ => 0].foldl
        (downloadStep twoFiles 2) (Downloads.init emptyRequest)).Right twoFiles ∧
      ¬ ([DownloadStep.readAttr 0 0 threeBytes, .readAttr 1 0 threeBytes, .read 1 1 fun _ => 1,
        .read 0 1 fun _ => 1].foldl
        (downloadStep twoFiles 2) (Downloads.init emptyRequest)).Right twoFiles := by
  constructor
  · intro h
    have hright := h.right 0 _ rfl
    exact absurd hright.isPrefix (by decide)
  · intro h
    have hright := h.right 0 _ rfl
    exact absurd hright.isPrefix (by decide)

end M57Card.Rest
