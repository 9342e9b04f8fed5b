import M57Card.Load.Keeps

/-!
# The steps of a file transfer

A transfer is opened by a LOAD command with a valid chip id, carried on by FILE_TRANSFER commands
and ended by one of them, which either starts the load of the file or gives the transfer up.
`Transferring c chip len k data` says that a transfer for `chip` of an announced length `len` is
open in `c`, that `k` chunks have been accepted, and that their payloads are `data`: the fields of
the section, the descriptor and the temporary file all agree. This file gives the steps between
such states.

Writes are assumed to store all bytes (`WritesAll`).

## Main definitions

* `Transferring`, `WritesAll`.
* `chunkSn`, `chunkPayload`, `AcceptsChunk` : the fields of a FILE_TRANSFER.
* `StoresChunk`, `EndsTransfer`, `Continues` : what becomes of a chunk and of its transfer.
* `StartsLoad` : the FILE_TRANSFER commands that start a load.

## Main results

* `transferring_executeLoad` : an accepted LOAD opens a transfer.
* `Transferring.receive` : an accepted chunk is appended to the file.
* `eventsOf_loadFileExit` : when a load is started, and with which content.
* `received_flags`, `startsLoad_iff` : what becomes of the transfer, and when a load is started, in
  terms of the context before a FILE_TRANSFER.
-/

namespace M57Card.M57

open Net Bytes

/-- `write` stores all bytes that it is given. -/
def WritesAll (env : Env) : Prop := ∀ t n, env.writeStored t n = some n

/-- The serial number of a FILE_TRANSFER. -/
def chunkSn (body : List UInt8) : ℤ := i16 (u16 body 10)

/-- The payload of a FILE_TRANSFER. -/
def chunkPayload (body : List UInt8) : List UInt8 := body.drop 12

/-- A FILE_TRANSFER has the chip id of the section and the serial number that is expected, or the
one that marks the last chunk. -/
def AcceptsChunk (c : Ctx) (body : List UInt8) : Prop :=
  u16 body 8 = c.sect.chipId ∧ (chunkSn body = -1 ∨ chunkSn body = c.sect.file.sn)

instance (c : Ctx) (body : List UInt8) : Decidable (AcceptsChunk c body) :=
  inferInstanceAs (Decidable (_ ∧ _))

/-- The descriptor of the section is open. -/
def HasOpenFile (c : Ctx) : Prop :=
  0 < c.sect.file.fd ∧ (c.host.files.descr c.sect.file.fd).isSome

instance (c : Ctx) : Decidable (HasOpenFile c) := inferInstanceAs (Decidable (_ ∧ _))

/-- A transfer for `chip` of length `len` is open, and `data` has arrived in `k` chunks. -/
structure Transferring (c : Ctx) (chip len k : ℕ) (data : List UInt8) : Prop where
  isRunLoadfile : c.sect.isRunLoadfile = true
  chipId : c.sect.chipId = chip
  isValid : ioXdmaIsValidChipid c.host chip = true
  len : c.sect.file.len = len
  lenOffset : c.sect.file.lenOffset = data.length
  sn : c.sect.file.sn = k
  path : c.sect.file.path = tmpPath chip
  fd : 0 < c.sect.file.fd
  descr : c.host.files.descr c.sect.file.fd = some (.file (tmpPath chip) data.length)
  content : c.host.files.content (tmpPath chip) = some data

variable {c c' : Ctx} {chip len k : ℕ} {data : List UInt8}

theorem Transferring.keeps (h : Transferring c chip len k data) (hk : Keeps c c') :
    Transferring c' chip len k data where
  isRunLoadfile := hk.isRunLoadfile.trans h.isRunLoadfile
  chipId := hk.chipId.trans h.chipId
  isValid := hk.isValid h.isValid
  len := by rw [hk.file, h.len]
  lenOffset := by rw [hk.file, h.lenOffset]
  sn := by rw [hk.file, h.sn]
  path := by rw [hk.file, h.path]
  fd := by rw [hk.file]; exact h.fd
  descr := by rw [hk.file, hk.descr, h.descr]
  content := by rw [hk.content, h.content]

/-! ### LOAD -/

/-- A LOAD with an invalid chip id changes the section only. -/
theorem executeLoad_rejected {body : List UInt8} (cn : Conn Ctx)
    (hv : ioXdmaIsValidChipid cn.proto.host (u16 body 8) = false) :
    (executeLoad body cn).1.proto = cn.proto.onSect (loadSection body) := by
  have hv' : ioXdmaIsValidChipid (cn.proto.onSect (loadSection body)).host (u16 body 8) = false :=
    hv
  simp only [executeLoad, hv', if_true]
  rfl

theorem createTmpPath_eq (c : Ctx) :
    ∃ files, createTmpPath c =
      { c with
        sect := { c.sect with file := { c.sect.file with path := tmpPath c.sect.chipId } }
        host := { c.host with files := files } } := by
  unfold createTmpPath
  dsimp only
  split_ifs
  · exact ⟨_, rfl⟩
  · exact ⟨c.host.files, rfl⟩

/-- What opening the temporary file leaves alone. -/
theorem openTmpFile_frame (c : Ctx) :
    (openTmpFile (createTmpPath c)).me = c.me ∧
      (openTmpFile (createTmpPath c)).host.env = c.host.env ∧
      (openTmpFile (createTmpPath c)).sect.isExitting = c.sect.isExitting ∧
      (openTmpFile (createTmpPath c)).sect.isKeytoolCmd = c.sect.isKeytoolCmd := by
  obtain ⟨files, htmp⟩ := createTmpPath_eq c
  rw [htmp, openTmpFile]
  split_ifs <;> exact ⟨rfl, rfl, rfl, rfl⟩

/-- An accepted LOAD opens the temporary file and writes the start command. -/
theorem executeLoad_accepted {body : List UInt8} (cn : Conn Ctx)
    (hv : ioXdmaIsValidChipid cn.proto.host (u16 body 8) = true)
    (hlive : cn.proto.host.exited = false)
    (hopen : cn.proto.host.env.openFails cn.proto.host.now = false) :
    ∃ files : FileTable Path, (executeLoad body cn).1.proto =
      { me := cn.proto.me
        sect :=
          { loadSection body cn.proto.sect with
            file := { (loadSection body cn.proto.sect).file with
              path := tmpPath (u16 body 8), fd := files.lowestFree } }
        host := m57StartLoadBitfileToFpga (u16 body 8)
          ({ cn.proto.host with files := (files.create (tmpPath (u16 body 8))).2 }.emit
            (.openFile (tmpPath (u16 body 8)) files.lowestFree)) } := by
  obtain ⟨files, htmp⟩ := createTmpPath_eq (cn.proto.onSect (loadSection body))
  have hv' : ¬ ioXdmaIsValidChipid (cn.proto.onSect (loadSection body)).host (u16 body 8) = false :=
    fun hfalse => Bool.noConfusion (hv.symm.trans hfalse)
  have hfile : openTmpFile (createTmpPath (cn.proto.onSect (loadSection body))) =
      { me := cn.proto.me
        sect :=
          { loadSection body cn.proto.sect with
            file := { (loadSection body cn.proto.sect).file with
              path := tmpPath (u16 body 8), fd := files.lowestFree } }
        host := { cn.proto.host with files := (files.create (tmpPath (u16 body 8))).2 }.emit
          (.openFile (tmpPath (u16 body 8)) files.lowestFree) } := by
    rw [htmp, openTmpFile, if_neg]
    · rfl
    · exact Bool.eq_false_iff.mp hopen
  have hexit : ¬ (openTmpFile (createTmpPath (cn.proto.onSect (loadSection body)))).host.exited =
      true := by
    rw [hfile]
    exact Bool.eq_false_iff.mp hlive
  refine ⟨files, ?_⟩
  rw [executeLoad, if_neg hv', if_neg hexit, hfile]
  rfl

/-- An accepted LOAD opens a transfer, unless the temporary file cannot be opened. -/
theorem transferring_executeLoad {body : List UInt8} (cn : Conn Ctx)
    (hv : ioXdmaIsValidChipid cn.proto.host (u16 body 8) = true)
    (hlive : cn.proto.host.exited = false)
    (hopen : cn.proto.host.env.openFails cn.proto.host.now = false) :
    Transferring (executeLoad body cn).1.proto (u16 body 8) (u32 body 14) 0 [] ∧
      (executeLoad body cn).1.proto.host.exited = false := by
  obtain ⟨files, heq⟩ := executeLoad_accepted cn hv hlive hopen
  have hfd := files.three_le_lowestFree
  rw [heq]
  refine ⟨?_, hlive⟩
  exact {
    isRunLoadfile := rfl
    chipId := rfl
    isValid := hv
    len := rfl
    lenOffset := rfl
    sn := rfl
    path := rfl
    fd := (Nat.zero_lt_succ 2).trans_le hfd
    descr := Function.update_self _ _ _
    content := Function.update_self _ _ _ }

/-- A LOAD whose temporary file cannot be opened ends the process. -/
theorem exited_executeLoad {body : List UInt8} (cn : Conn Ctx)
    (hv : ioXdmaIsValidChipid cn.proto.host (u16 body 8) = true)
    (hopen : cn.proto.host.env.openFails cn.proto.host.now = true) :
    (executeLoad body cn).1.proto.host.exited = true := by
  obtain ⟨files, htmp⟩ := createTmpPath_eq (cn.proto.onSect (loadSection body))
  have hv' : ¬ ioXdmaIsValidChipid (cn.proto.onSect (loadSection body)).host (u16 body 8) = false :=
    fun hfalse => Bool.noConfusion (hv.symm.trans hfalse)
  have hexit : (openTmpFile (createTmpPath (cn.proto.onSect (loadSection body)))).host.exited =
      true := by
    rw [htmp, openTmpFile, if_pos]
    · rfl
    · exact hopen
  rw [executeLoad, if_neg hv', if_pos hexit]
  exact hexit

/-! ### The end of FILE_TRANSFER -/

/-- Loading a file is one start, with the content that the file has. -/
theorem eventsOf_loadingBitfile (client : ℕ) (path : Path) (h : Host) :
    (m57LoadingBitfileToFpga client path h).2.eventsOf .loadStart =
      h.eventsOf .loadStart ++ [.loadStart client path ((h.files.content path).getD [])] := by
  have hstart (content : List UInt8) :
      (h.emit (.loadStart client path content)).eventsOf .loadStart =
        h.eventsOf .loadStart ++ [.loadStart client path content] := by
    rw [Host.eventsOf_emit]
    rfl
  unfold m57LoadingBitfileToFpga
  cases h.files.content path with
  | none => exact hstart []
  | some file =>
    dsimp only
    split_ifs
    · exact hstart file
    · exact hstart file
    · rw [(emits_loadingLoop _ _ _ _ _).grows.eventsOf_eq (by decide)]
      exact hstart file

/-- The load that a FILE_TRANSFER starts when its end is reached in the context `c`. -/
def startedLoad (c : Ctx) : List Event :=
  if c.sect.isRunLoadfile = false ∧ c.sect.isLoadfileOk = true ∧
      ioXdmaIsValidChipid c.host c.sect.chipId = true then
    [.loadStart c.me c.sect.file.path ((c.host.files.content c.sect.file.path).getD [])]
  else []

/-- FILE_TRANSFER starts a load exactly when no transfer is running, the last one was received
completely and the chip id is valid. -/
theorem eventsOf_loadFileExit (cn : Conn Ctx) :
    (loadFileExit cn).1.proto.host.eventsOf .loadStart =
      cn.proto.host.eventsOf .loadStart ++ startedLoad cn.proto := by
  unfold startedLoad
  have hload := eventsOf_loadingBitfile cn.proto.me cn.proto.sect.file.path cn.proto.host
  unfold loadFileExit
  dsimp only
  generalize m57LoadingBitfileToFpga cn.proto.me cn.proto.sect.file.path cn.proto.host = r at hload
  obtain ⟨ok, h⟩ := r
  by_cases hrun : cn.proto.sect.isRunLoadfile = false
  · by_cases hok : cn.proto.sect.isLoadfileOk = true ∧
        ioXdmaIsValidChipid cn.proto.host cn.proto.sect.chipId = true
    · simp only [hrun, hok, and_self, if_true]
      split_ifs
      · exact hload
      · rw [(grows_m57LoadBitOver _ _).eventsOf_eq (by decide)]
        exact hload
      · rw [(grows_loadFailed _).eventsOf_eq (by decide),
          (grows_m57LoadBitOver _ _).eventsOf_eq (by decide)]
        exact hload
    · simp only [hrun, hok, and_false, if_true, if_false, List.append_nil]
      exact (grows_loadFailed cn).eventsOf_eq (by decide)
  · rw [if_neg hrun, if_neg fun hall => hrun hall.1, List.append_nil]
    exact Grows.eventsOf_eq ((emits_status rfl _).trans (emits_status rfl _)).grows (by decide)

/-! ### FILE_TRANSFER -/

/-- A chunk that is not accepted gives the transfer up. -/
theorem receiveChunk_rejected (contentLength : ℕ) {body : List UInt8}
    (h : ¬ AcceptsChunk c body) :
    (receiveChunk contentLength body c).host = c.host ∧
      (receiveChunk contentLength body c).sect.isRunLoadfile = false ∧
      (receiveChunk contentLength body c).sect.isLoadfileOk = false := by
  have herr : c.sect.chipId ≠ u16 body 8 ∨
      (i16 (u16 body 10) ≠ -1 ∧ i16 (u16 body 10) ≠ c.sect.file.sn) := by
    by_contra hacc
    push Not at hacc
    refine h ⟨hacc.1.symm, ?_⟩
    by_cases hsn : chunkSn body = -1
    · exact .inl hsn
    · exact .inr (hacc.2 hsn)
  unfold receiveChunk
  simp only [herr, if_true]
  exact ⟨rfl, rfl, rfl⟩

theorem not_err_of_acceptsChunk {body : List UInt8} (h : AcceptsChunk c body) :
    ¬ (c.sect.chipId ≠ u16 body 8 ∨
      (i16 (u16 body 10) ≠ -1 ∧ i16 (u16 body 10) ≠ c.sect.file.sn)) := by
  rintro (hchip | ⟨hsn₁, hsn₂⟩)
  · exact hchip h.1.symm
  · exact h.2.elim hsn₁ hsn₂

/-- A chunk is stored: it has all its fields, the descriptor of the section is open, and `write`
does not fail. -/
def StoresChunk (c : Ctx) (body : List UInt8) : Prop :=
  HasOpenFile c ∧ 12 ≤ body.length ∧
    (c.host.env.writeStored c.host.now (chunkPayload body).length).isSome

instance (c : Ctx) (body : List UInt8) : Decidable (StoresChunk c body) :=
  inferInstanceAs (Decidable (_ ∧ _))

theorem storesChunk_iff (hw : WritesAll c.host.env) {body : List UInt8} :
    StoresChunk c body ↔ HasOpenFile c ∧ 12 ≤ body.length := by
  rw [StoresChunk, hw]
  simp

/-- A `write` that fails: the descriptor is not open, or the environment refuses. -/
theorem writeFile_of_fails {h : Host} {fd : ℕ} {bytes : List UInt8}
    (hfail : h.files.descr fd = none ∨ h.env.writeStored h.now bytes.length = none) :
    h.writeFile fd bytes = (-1, h) := by
  unfold Host.writeFile
  cases hstored : h.env.writeStored h.now bytes.length with
  | none => rfl
  | some k =>
    have hd := hfail.resolve_right (by rw [hstored]; exact Option.some_ne_none k)
    simp only [FileTable.write_of_none hd]

/-- A chunk that is accepted but not stored gives the transfer up. -/
theorem receiveChunk_of_not_stored {body : List UInt8} (h : AcceptsChunk c body)
    (hfail : ¬ StoresChunk c body) :
    receiveChunk body.length body c = closeTransfer false (c.onSect fun s =>
      { s with file := { s.file with sn := nextSn (chunkSn body) s.file } }) := by
  have hrecv : recvFileOver ((body.drop 12).take ((body.length : ℤ) - 12).toNat)
        ((body.length : ℤ) - 12) (c.onSect fun s =>
          { s with file := { s.file with sn := nextSn (i16 (u16 body 10)) s.file } }) =
      (-1, c.onSect fun s =>
        { s with file := { s.file with sn := nextSn (i16 (u16 body 10)) s.file } }) := by
    unfold recvFileOver
    by_cases hneg : (body.length : ℤ) - 12 < 0
    · simp only [hneg, if_true, ite_self]
    by_cases hfd : 0 < c.sect.file.fd
    · have hpay : (body.drop 12).take ((body.length : ℤ) - 12).toNat = chunkPayload body :=
        List.take_of_length_le (by rw [List.length_drop]; omega)
      have hwrite : c.host.writeFile c.sect.file.fd (chunkPayload body) = (-1, c.host) := by
        refine writeFile_of_fails ?_
        by_contra hnot
        obtain ⟨hopen, hstored⟩ := not_or.mp hnot
        refine hfail ⟨⟨hfd, ?_⟩, by omega, ?_⟩
        · exact Option.isSome_iff_ne_none.mpr hopen
        · exact Option.isSome_iff_ne_none.mpr hstored
      simp only [Ctx.onSect, hfd, if_true, hneg, if_false, hpay, hwrite]
      rfl
    · simp only [Ctx.onSect, hfd, if_false]
  unfold receiveChunk
  simp only [not_err_of_acceptsChunk h, if_false, hrecv]
  rfl

/-- `_recv_file_over` after a write that has not failed. -/
theorem recvFileOver_of_write (c : Ctx) {payload : List UInt8} {rc : ℕ} {h : Host}
    (hfd : 0 < c.sect.file.fd)
    (hwrite : c.host.writeFile c.sect.file.fd payload = ((rc : ℤ), h)) :
    recvFileOver payload payload.length c =
      (if c.sect.file.lenOffset + payload.length = c.sect.file.len ∨ c.sect.file.sn = -1 then 0
        else if c.sect.file.len < c.sect.file.lenOffset + payload.length then -1
        else (payload.length : ℤ),
      { c with
        sect := { c.sect with
          file := { c.sect.file with lenOffset := c.sect.file.lenOffset + payload.length } }
        host := h }) := by
  have hlen : ¬ (payload.length : ℤ) < 0 := by omega
  have hrc : ¬ (rc : ℤ) < 0 := by omega
  unfold recvFileOver
  simp only [hfd, if_true, hlen, hrc, if_false, hwrite, Int.toNat_natCast, Ctx.onSect]
  split_ifs <;> rfl

/-- The section and the host after a chunk has been received of which `stored` was written, with
the new table of files. -/
def storeChunk (body stored : List UInt8) (files : FileTable Path) (c : Ctx) : Ctx :=
  { c with
    sect := { c.sect with
      file := { c.sect.file with
        lenOffset := c.sect.file.lenOffset + (chunkPayload body).length
        sn := nextSn (chunkSn body) c.sect.file } }
    host := { c.host with files := files }.emit (.write c.sect.file.fd stored) }

/-- A chunk with which the transfer counts as complete: it brings the bytes received to the
announced length, it has the serial number `-1`, or it is empty. -/
def EndsTransfer (c : Ctx) (body : List UInt8) : Prop :=
  c.sect.file.lenOffset + (chunkPayload body).length = c.sect.file.len ∨
    nextSn (chunkSn body) c.sect.file = -1 ∨
    chunkPayload body = [] ∧ c.sect.file.lenOffset < c.sect.file.len

instance (c : Ctx) (body : List UInt8) : Decidable (EndsTransfer c body) :=
  inferInstanceAs (Decidable (_ ∨ _))

/-- The result of `_recv_file_over` for a chunk says whether the transfer is complete, too long or
goes on. -/
theorem recvResult_iff (c : Ctx) (body : List UInt8) {ret : ℤ}
    (hret : ret =
      if c.sect.file.lenOffset + (chunkPayload body).length = c.sect.file.len ∨
          nextSn (chunkSn body) c.sect.file = -1 then 0
      else if c.sect.file.len < c.sect.file.lenOffset + (chunkPayload body).length then -1
      else ((chunkPayload body).length : ℤ)) :
    (ret = 0 ↔ EndsTransfer c body) ∧
      (ret ≠ 0 → (ret < 0 ↔
        c.sect.file.len < c.sect.file.lenOffset + (chunkPayload body).length)) := by
  have hempty : (chunkPayload body).length = 0 ↔ chunkPayload body = [] := List.length_eq_zero_iff
  rw [EndsTransfer, ← hempty]
  split_ifs at hret with hover hlong
  · exact ⟨iff_of_true hret (hover.imp_right .inl), fun hne => absurd hret hne⟩
  · obtain ⟨hne, hsn⟩ := not_or.mp hover
    refine ⟨iff_of_false (by omega) ?_, fun _ => iff_of_true (by omega) hlong⟩
    rintro (heq | heq | ⟨hnil, hlt⟩)
    · exact hne heq
    · exact hsn heq
    · omega
  · obtain ⟨hne, hsn⟩ := not_or.mp hover
    refine ⟨⟨fun hzero => .inr (.inr (by omega)), ?_⟩, fun _ => iff_of_false (by omega) hlong⟩
    rintro (heq | heq | ⟨hnil, -⟩)
    · exact absurd heq hne
    · exact absurd heq hsn
    · omega

/-- An accepted chunk is stored through the descriptor of the section, and the transfer is
complete, too long or goes on. A short write goes unnoticed. -/
theorem receiveChunk_of_stored {body : List UInt8} (hacc : AcceptsChunk c body)
    (hstores : StoresChunk c body) :
    ∃ k files, c.host.env.writeStored c.host.now (chunkPayload body).length = some k ∧
      c.host.files.write c.sect.file.fd ((chunkPayload body).take k) = some files ∧
      receiveChunk body.length body c =
        if EndsTransfer c body then
          closeTransfer true (storeChunk body ((chunkPayload body).take k) files c)
        else if c.sect.file.len < c.sect.file.lenOffset + (chunkPayload body).length then
          closeTransfer false (storeChunk body ((chunkPayload body).take k) files c)
        else storeChunk body ((chunkPayload body).take k) files c := by
  obtain ⟨⟨hfd, hopen⟩, hlen, hsome⟩ := hstores
  obtain ⟨k, hk⟩ := Option.isSome_iff_exists.mp hsome
  obtain ⟨files, hwrite⟩ := Option.isSome_iff_exists.mp
    ((FileTable.isSome_write c.host.files c.sect.file.fd ((chunkPayload body).take k)).trans hopen)
  refine ⟨k, files, hk, hwrite, ?_⟩
  have hpay : (body.drop 12).take ((body.length : ℤ) - 12).toNat = chunkPayload body :=
    List.take_of_length_le (by rw [List.length_drop]; omega)
  have hfl : (body.length : ℤ) - 12 = (chunkPayload body).length := by
    rw [chunkPayload, List.length_drop]
    omega
  have hfile : c.host.writeFile c.sect.file.fd (chunkPayload body) =
      (((((chunkPayload body).take k).length : ℕ) : ℤ),
        { c.host with files := files }.emit
          (.write c.sect.file.fd ((chunkPayload body).take k))) := by
    unfold Host.writeFile
    simp only [hk, hwrite]
  obtain ⟨ret, hret, hrecv⟩ : ∃ ret : ℤ, ret =
      (if c.sect.file.lenOffset + (chunkPayload body).length = c.sect.file.len ∨
          nextSn (chunkSn body) c.sect.file = -1 then 0
        else if c.sect.file.len < c.sect.file.lenOffset + (chunkPayload body).length then -1
        else ((chunkPayload body).length : ℤ)) ∧
      recvFileOver ((body.drop 12).take ((body.length : ℤ) - 12).toNat) ((body.length : ℤ) - 12)
          (c.onSect fun s =>
            { s with file := { s.file with sn := nextSn (i16 (u16 body 10)) s.file } }) =
        (ret, storeChunk body ((chunkPayload body).take k) files c) := by
    refine ⟨_, rfl, ?_⟩
    rw [hpay, hfl]
    exact recvFileOver_of_write (c.onSect fun s =>
      { s with file := { s.file with sn := nextSn (chunkSn body) s.file } }) hfd hfile
  obtain ⟨hends, hlong⟩ := recvResult_iff c body hret
  unfold receiveChunk
  simp only [not_err_of_acceptsChunk hacc, if_false, hrecv]
  by_cases hzero : ret = 0
  · rw [if_pos hzero, if_pos (hends.mp hzero)]
  · rw [if_neg hzero, if_neg fun h => hzero (hends.mpr h)]
    exact if_congr (hlong hzero) rfl rfl

theorem Transferring.hasOpenFile (h : Transferring c chip len k data) : HasOpenFile c :=
  ⟨h.fd, by rw [h.descr]; rfl⟩

theorem Transferring.endsTransfer_iff (h : Transferring c chip len k data) {body : List UInt8}
    (hacc : AcceptsChunk c body) :
    EndsTransfer c body ↔ (data ++ chunkPayload body).length = len ∨ chunkSn body = -1 ∨
      chunkPayload body = [] ∧ data.length < len := by
  have hsn : nextSn (chunkSn body) c.sect.file = -1 ↔ chunkSn body = -1 := by
    constructor
    · intro hnext
      by_contra hne
      rw [nextSn, if_neg hne, if_pos (hacc.2.resolve_left hne), h.sn] at hnext
      omega
    · intro heq
      rw [nextSn, if_pos heq]
  rw [EndsTransfer, hsn, h.lenOffset, h.len, List.length_append]

/-- An accepted chunk is appended to the file; the transfer is over when the announced length is
reached, at the serial number `-1`, and at an empty chunk. -/
theorem Transferring.receive (h : Transferring c chip len k data) (hw : WritesAll c.host.env)
    {body : List UInt8} (hacc : AcceptsChunk c body) (hlen : 12 ≤ body.length) :
    ∃ files : FileTable Path,
      files.descr = Function.update c.host.files.descr c.sect.file.fd
        (some (.file (tmpPath chip) (data ++ chunkPayload body).length)) ∧
      files.content = Function.update c.host.files.content (tmpPath chip)
        (some (data ++ chunkPayload body)) ∧
      receiveChunk body.length body c =
        if (data ++ chunkPayload body).length = len ∨ chunkSn body = -1 ∨
            chunkPayload body = [] ∧ data.length < len then
          closeTransfer true (storeChunk body (chunkPayload body) files c)
        else if len < (data ++ chunkPayload body).length then
          closeTransfer false (storeChunk body (chunkPayload body) files c)
        else storeChunk body (chunkPayload body) files c := by
  obtain ⟨n, files, hn, hwrite, hrecv⟩ :=
    receiveChunk_of_stored hacc ((storesChunk_iff hw).mpr ⟨h.hasOpenFile, hlen⟩)
  obtain rfl : (chunkPayload body).length = n := Option.some.inj ((hw _ _).symm.trans hn)
  rw [List.take_length] at hwrite hrecv
  obtain ⟨files', hwrite', hdescr, hcontent⟩ :=
    FileTable.write_end h.descr h.content (chunkPayload body)
  obtain rfl : files' = files := Option.some.inj (hwrite'.symm.trans hwrite)
  refine ⟨files', hdescr, hcontent, ?_⟩
  simp only [hrecv, h.endsTransfer_iff hacc, h.lenOffset, h.len, List.length_append]

/-- A chunk that is neither the last nor empty and does not complete the file keeps the transfer
open. -/
theorem Transferring.chunk (h : Transferring c chip len k data) {body : List UInt8}
    (hsn : chunkSn body = k) {files : FileTable Path}
    (hdescr : files.descr = Function.update c.host.files.descr c.sect.file.fd
      (some (.file (tmpPath chip) (data ++ chunkPayload body).length)))
    (hcontent : files.content = Function.update c.host.files.content (tmpPath chip)
      (some (data ++ chunkPayload body))) :
    Transferring (storeChunk body (chunkPayload body) files c) chip len (k + 1)
      (data ++ chunkPayload body) where
  isRunLoadfile := h.isRunLoadfile
  chipId := h.chipId
  isValid := h.isValid
  len := h.len
  lenOffset := by
    change c.sect.file.lenOffset + _ = _
    rw [h.lenOffset, List.length_append]
  sn := by
    change nextSn (chunkSn body) c.sect.file = _
    rw [nextSn, if_neg (by omega), if_pos (by rw [hsn, h.sn]), h.sn]
    rfl
  path := h.path
  fd := h.fd
  descr := by
    change files.descr c.sect.file.fd = _
    rw [hdescr, Function.update_self]
  content := by
    change files.content _ = _
    rw [hcontent, Function.update_self]

/-- What no part of FILE_TRANSFER changes. -/
structure SameCard (c c' : Ctx) : Prop where
  me : c'.me = c.me
  env : c'.host.env = c.host.env
  cards : c'.host.cards = c.host.cards
  exited : c'.host.exited = c.host.exited
  chipId : c'.sect.chipId = c.sect.chipId
  path : c'.sect.file.path = c.sect.file.path
  fd : c'.sect.file.fd = c.sect.file.fd
  isExitting : c'.sect.isExitting = c.sect.isExitting
  isKeytoolCmd : c'.sect.isKeytoolCmd = c.sect.isKeytoolCmd

theorem SameCard.trans {c₁ c₂ c₃ : Ctx} (h₁₂ : SameCard c₁ c₂) (h₂₃ : SameCard c₂ c₃) :
    SameCard c₁ c₃ :=
  ⟨h₂₃.me.trans h₁₂.me, h₂₃.env.trans h₁₂.env, h₂₃.cards.trans h₁₂.cards,
    h₂₃.exited.trans h₁₂.exited, h₂₃.chipId.trans h₁₂.chipId, h₂₃.path.trans h₁₂.path,
    h₂₃.fd.trans h₁₂.fd, h₂₃.isExitting.trans h₁₂.isExitting,
    h₂₃.isKeytoolCmd.trans h₁₂.isKeytoolCmd⟩

theorem sameCard_closeTransfer (ok : Bool) (c : Ctx) : SameCard c (closeTransfer ok c) := by
  unfold closeTransfer
  dsimp only
  split_ifs <;> exact ⟨rfl, rfl, rfl, rfl, rfl, rfl, rfl, rfl, rfl⟩

/-- The flags and the files after a transfer has been closed. -/
theorem closeTransfer_flags (ok : Bool) (c : Ctx) :
    (closeTransfer ok c).sect.isRunLoadfile = false ∧ (closeTransfer ok c).sect.isLoadfileOk = ok ∧
      (closeTransfer ok c).host.files.content = c.host.files.content := by
  unfold closeTransfer
  dsimp only
  split_ifs
  · exact ⟨rfl, rfl, FileTable.content_close _ _⟩
  · exact ⟨rfl, rfl, rfl⟩

theorem sameCard_recvFileOver (file : List UInt8) (fileLen : ℤ) (c : Ctx) :
    SameCard c (recvFileOver file fileLen c).2 := by
  have hwrite : (c.host.writeFile c.sect.file.fd file).2.env = c.host.env ∧
      (c.host.writeFile c.sect.file.fd file).2.cards = c.host.cards ∧
      (c.host.writeFile c.sect.file.fd file).2.exited = c.host.exited := by
    unfold Host.writeFile
    split
    · exact ⟨rfl, rfl, rfl⟩
    · split <;> exact ⟨rfl, rfl, rfl⟩
  unfold recvFileOver
  dsimp only
  split_ifs
  all_goals first
    | exact ⟨rfl, rfl, rfl, rfl, rfl, rfl, rfl, rfl, rfl⟩
    | exact ⟨rfl, hwrite.1, hwrite.2.1, hwrite.2.2, rfl, rfl, rfl, rfl, rfl⟩

/-- A chunk changes neither the chip id of the section nor the cards. -/
theorem sameCard_receiveChunk (contentLength : ℕ) (body : List UInt8) (c : Ctx) :
    SameCard c (receiveChunk contentLength body c) := by
  have hsn : SameCard c (c.onSect fun s =>
      { s with file := { s.file with sn := nextSn (i16 (u16 body 10)) s.file } }) :=
    ⟨rfl, rfl, rfl, rfl, rfl, rfl, rfl, rfl, rfl⟩
  have hrecv := hsn.trans (sameCard_recvFileOver
    ((body.drop 12).take ((contentLength : ℤ) - 12).toNat) ((contentLength : ℤ) - 12) _)
  unfold receiveChunk
  dsimp only
  split_ifs
  · exact ⟨rfl, rfl, rfl, rfl, rfl, rfl, rfl, rfl, rfl⟩
  · exact hrecv.trans (sameCard_closeTransfer true _)
  · exact hrecv.trans (sameCard_closeTransfer false _)
  · exact hrecv

/-! ### The commands of a transfer -/

theorem eventsOf_emit_execute (body : List UInt8) (c : Ctx) {k : EventKind} (hk : k ≠ .frame) :
    (c.emit (.execute body)).host.eventsOf k = c.host.eventsOf k := by
  change (c.host.emit _).eventsOf k = _
  have hne : ¬ (Event.execute body).kind = k := fun heq => hk heq.symm
  rw [Host.eventsOf_emit, if_neg hne, List.append_nil]

/-- The events of the switch are the events of the command, but for the answer. -/
theorem eventsOf_command (body : List UInt8) (c : Ctx) {k : EventKind} (hk : k ≠ .send) :
    (command body c).host.eventsOf k =
      (executeSwitch body.length body { proto := c.emit (.execute body) }).1.proto.host.eventsOf
        k :=
  (grows_command_of_switch body c).eventsOf_eq (by simpa using hk)

theorem executeSwitch_load {body : List UInt8} (hcmd : cardCmd (u16 body 0) = .load) (c : Ctx) :
    executeSwitch body.length body { proto := c.emit (.execute body) } =
      executeLoad body { proto := c.emit (.execute body) } := by
  simp only [executeSwitch, hcmd]

/-- A rejected LOAD is answered, and all that changes are the transfer fields of the section. -/
theorem keeps_command_rejected {body : List UInt8} (hcmd : cardCmd (u16 body 0) = .load)
    (hv : ioXdmaIsValidChipid c.host (u16 body 8) = false) :
    Keeps ((c.emit (.execute body)).onSect (loadSection body)) (command body c) := by
  have hkeeps := keeps_command body c
  rwa [executeSwitch_load hcmd,
    executeLoad_rejected { proto := c.emit (.execute body) } hv] at hkeeps

/-- The context in which the end of a FILE_TRANSFER is reached. -/
def received (body : List UInt8) (c : Ctx) : Ctx :=
  if c.sect.isRunLoadfile = false then c.emit (.execute body)
  else receiveChunk body.length body (c.emit (.execute body))

theorem sameCard_received (body : List UInt8) (c : Ctx) : SameCard c (received body c) := by
  have hemit : SameCard c (c.emit (.execute body)) := ⟨rfl, rfl, rfl, rfl, rfl, rfl, rfl, rfl, rfl⟩
  rw [received]
  split_ifs
  · exact hemit
  · exact hemit.trans (sameCard_receiveChunk _ _ _)

theorem executeSwitch_fileTransfer {body : List UInt8}
    (hcmd : cardCmd (u16 body 0) = .fileTransfer) (c : Ctx) :
    executeSwitch body.length body { proto := c.emit (.execute body) } =
      loadFileExit { proto := received body c } := by
  simp only [executeSwitch, hcmd, executeFileTransfer, received]
  by_cases hrun : c.sect.isRunLoadfile = false
  · rw [if_pos hrun, if_pos]
    exact hrun
  · rw [if_neg hrun, if_neg]
    exact hrun

/-- All that FILE_TRANSFER stores is the chunk that it receives. -/
theorem eventsOf_write_fileTransfer {body : List UInt8}
    (hcmd : cardCmd (u16 body 0) = .fileTransfer) (c : Ctx) :
    (command body c).host.eventsOf .write = (received body c).host.eventsOf .write := by
  rw [eventsOf_command body c (by decide), executeSwitch_fileTransfer hcmd,
    (grows_loadFileExit _).eventsOf_eq (by decide)]

/-- FILE_TRANSFER: a chunk is received, if a transfer is running, and then at most one load is
started. -/
theorem command_fileTransfer {body : List UInt8} (hcmd : cardCmd (u16 body 0) = .fileTransfer)
    (c : Ctx) :
    Keeps (received body c) (command body c) ∧
      (command body c).host.eventsOf .loadStart =
        c.host.eventsOf .loadStart ++ startedLoad (received body c) ∧
      ((received body c).sect.isRunLoadfile = true →
        (command body c).host.exited = c.host.exited) := by
  have hswitch := executeSwitch_fileTransfer hcmd c
  have hevents : (received body c).host.eventsOf .loadStart = c.host.eventsOf .loadStart := by
    rw [← eventsOf_emit_execute body c (show EventKind.loadStart ≠ .frame by decide), received]
    split_ifs
    · rfl
    · exact (grows_receiveChunk _ _ _).eventsOf_eq (by decide)
  have hkeeps := keeps_command body c
  rw [hswitch] at hkeeps
  refine ⟨(keeps_loadFileExit { proto := received body c }).trans hkeeps, ?_, fun hrun => ?_⟩
  · rw [eventsOf_command body c (by decide), hswitch, eventsOf_loadFileExit, hevents]
  · rw [exited_command, hswitch, loadFileExit, if_neg (by rw [hrun]; decide)]
    change (received body c).host.exited = _
    rw [received]
    split_ifs
    · rfl
    · exact (sameCard_receiveChunk _ _ _).exited

theorem startedLoad_of_running (hrun : c.sect.isRunLoadfile = true) : startedLoad c = [] :=
  if_neg fun hall => Bool.noConfusion (hrun.symm.trans hall.1)

theorem startedLoad_of_not_ok (hok : c.sect.isLoadfileOk = false) : startedLoad c = [] :=
  if_neg fun hall => Bool.noConfusion (hok.symm.trans hall.2.1)

section Chunks

variable {body : List UInt8}

theorem received_of_running (hrun : c.sect.isRunLoadfile = true) :
    received body c = receiveChunk body.length body (c.emit (.execute body)) :=
  if_neg (by rw [hrun]; decide)

/-- A chunk after which the transfer is still running. -/
def Continues (c : Ctx) (body : List UInt8) : Prop :=
  c.sect.isRunLoadfile = true ∧ AcceptsChunk c body ∧
    StoresChunk (c.emit (.execute body)) body ∧ ¬ EndsTransfer c body ∧
    c.sect.file.lenOffset + (chunkPayload body).length ≤ c.sect.file.len

instance (c : Ctx) (body : List UInt8) : Decidable (Continues c body) :=
  inferInstanceAs (Decidable (_ ∧ _))

/-- The flags after a chunk of a running transfer: the transfer goes on, it is complete, or it has
been given up. -/
theorem received_flags (body : List UInt8) (hrun : c.sect.isRunLoadfile = true) :
    ((received body c).sect.isRunLoadfile = true ↔ Continues c body) ∧
      ((received body c).sect.isRunLoadfile = false ∧ (received body c).sect.isLoadfileOk = true ↔
        AcceptsChunk c body ∧ StoresChunk (c.emit (.execute body)) body ∧ EndsTransfer c body) := by
  rw [received_of_running hrun]
  by_cases hacc : AcceptsChunk (c.emit (.execute body)) body
  · by_cases hstores : StoresChunk (c.emit (.execute body)) body
    · obtain ⟨k, files, -, -, hrecv⟩ := receiveChunk_of_stored hacc hstores
      rw [hrecv]
      set c₁ := storeChunk body ((chunkPayload body).take k) files (c.emit (.execute body))
      by_cases hends : EndsTransfer (c.emit (.execute body)) body
      · rw [if_pos hends]
        obtain ⟨hstop, hok, -⟩ := closeTransfer_flags true c₁
        refine ⟨iff_of_false (by rw [hstop]; decide) fun h => h.2.2.2.1 hends, ?_⟩
        exact iff_of_true ⟨hstop, hok⟩ ⟨hacc, hstores, hends⟩
      rw [if_neg hends]
      by_cases hlong : (c.emit (.execute body)).sect.file.len <
          (c.emit (.execute body)).sect.file.lenOffset + (chunkPayload body).length
      · rw [if_pos hlong]
        obtain ⟨hstop, hok, -⟩ := closeTransfer_flags false c₁
        refine ⟨iff_of_false (by rw [hstop]; decide) fun h => ?_, ?_⟩
        · exact absurd h.2.2.2.2 (not_le.mpr hlong)
        · exact iff_of_false (fun h => Bool.noConfusion (hok.symm.trans h.2)) fun h => hends h.2.2
      · rw [if_neg hlong]
        refine ⟨iff_of_true hrun ⟨hrun, hacc, hstores, hends, not_lt.mp hlong⟩, ?_⟩
        exact iff_of_false (fun h => Bool.noConfusion (hrun.symm.trans h.1)) fun h => hends h.2.2
    · rw [receiveChunk_of_not_stored hacc hstores]
      obtain ⟨hstop, hok, -⟩ := closeTransfer_flags false ((c.emit (.execute body)).onSect fun s =>
        { s with file := { s.file with sn := nextSn (chunkSn body) s.file } })
      refine ⟨iff_of_false (by rw [hstop]; decide) fun h => hstores h.2.2.1, ?_⟩
      exact iff_of_false (fun h => Bool.noConfusion (hok.symm.trans h.2)) fun h => hstores h.2.1
  · obtain ⟨-, hstop, hok⟩ := receiveChunk_rejected body.length hacc
    refine ⟨iff_of_false (by rw [hstop]; decide) fun h => hacc h.2.1, ?_⟩
    exact iff_of_false (fun h => Bool.noConfusion (hok.symm.trans h.2)) fun h => hacc h.1

/-- FILE_TRANSFER starts a load in the context `c`: it completes a running transfer, or no transfer
is running and the flags of the last one are still set. -/
def StartsLoad (c : Ctx) (body : List UInt8) : Prop :=
  ioXdmaIsValidChipid c.host c.sect.chipId = true ∧
    if c.sect.isRunLoadfile = true then
      AcceptsChunk c body ∧ StoresChunk (c.emit (.execute body)) body ∧ EndsTransfer c body
    else c.sect.isLoadfileOk = true

instance (c : Ctx) (body : List UInt8) : Decidable (StartsLoad c body) :=
  inferInstanceAs (Decidable (_ ∧ _))

theorem startsLoad_iff (c : Ctx) (body : List UInt8) :
    StartsLoad c body ↔ (received body c).sect.isRunLoadfile = false ∧
      (received body c).sect.isLoadfileOk = true ∧
      ioXdmaIsValidChipid (received body c).host (received body c).sect.chipId = true := by
  have hsame := sameCard_received body c
  have hvalid : ioXdmaIsValidChipid (received body c).host (received body c).sect.chipId =
      ioXdmaIsValidChipid c.host c.sect.chipId := by
    rw [ioXdmaIsValidChipid, hsame.cards, hsame.chipId]
    rfl
  rw [hvalid, ← and_assoc, and_comm (a := _ ∧ _), StartsLoad]
  refine and_congr_right fun _ => ?_
  by_cases hrun : c.sect.isRunLoadfile = true
  · rw [if_pos hrun]
    exact (received_flags body hrun).2.symm
  · have hfalse : c.sect.isRunLoadfile = false := Bool.eq_false_iff.mpr hrun
    rw [if_neg hrun, received, if_pos hfalse]
    exact (and_iff_right hfalse).symm

theorem startedLoad_eq_nil_iff : startedLoad (received body c) = [] ↔ ¬ StartsLoad c body := by
  rw [startsLoad_iff]
  refine ⟨fun hnil h => ?_, fun h => if_neg h⟩
  rw [startedLoad, if_pos h] at hnil
  exact List.cons_ne_nil _ _ hnil

/-- A chunk in the middle of a file: the transfer goes on and nothing is loaded. -/
theorem Transferring.command_middle (h : Transferring c chip len k data)
    (hw : WritesAll c.host.env) (hcmd : cardCmd (u16 body 0) = .fileTransfer)
    (hchip : u16 body 8 = chip) (hsn : chunkSn body = k) (hne : chunkPayload body ≠ [])
    (hlt : (data ++ chunkPayload body).length < len) :
    Transferring (command body c) chip len (k + 1) (data ++ chunkPayload body) ∧
      (command body c).host.eventsOf .loadStart = c.host.eventsOf .loadStart ∧
      (command body c).host.exited = c.host.exited := by
  have hlen : 12 ≤ body.length := by
    by_contra hshort
    exact hne (List.drop_eq_nil_of_le (by omega))
  have h' := h.keeps (Keeps.emit (.execute body) c)
  have hacc : AcceptsChunk (c.emit (.execute body)) body :=
    ⟨hchip.trans h.chipId.symm, .inr (hsn.trans h.sn.symm)⟩
  obtain ⟨files, hdescr, hcontent, hrecv⟩ := h'.receive hw hacc hlen
  have hlast : ¬ ((data ++ chunkPayload body).length = len ∨ chunkSn body = -1 ∨
      chunkPayload body = [] ∧ data.length < len) := by
    rintro (heq | heq | ⟨heq, -⟩)
    · omega
    · omega
    · exact hne heq
  rw [if_neg hlast, if_neg (by omega), ← received_of_running h.isRunLoadfile] at hrecv
  have hst : Transferring (received body c) chip len (k + 1) (data ++ chunkPayload body) :=
    hrecv ▸ h'.chunk hsn hdescr hcontent
  obtain ⟨hkeeps, hevents, hexited⟩ := command_fileTransfer hcmd c
  refine ⟨hst.keeps hkeeps, ?_, hexited hst.isRunLoadfile⟩
  rw [hevents, startedLoad_of_running hst.isRunLoadfile, List.append_nil]

/-- A chunk that completes the file: one load is started, of the file with all payloads. -/
theorem Transferring.command_last (h : Transferring c chip len k data)
    (hw : WritesAll c.host.env) (hcmd : cardCmd (u16 body 0) = .fileTransfer)
    (hchip : u16 body 8 = chip) (hsn : chunkSn body = -1 ∨ chunkSn body = k)
    (hlen : 12 ≤ body.length)
    (hlast : (data ++ chunkPayload body).length = len ∨ chunkSn body = -1 ∨
      chunkPayload body = [] ∧ data.length < len) :
    (command body c).sect.isRunLoadfile = false ∧
      (command body c).host.eventsOf .loadStart = c.host.eventsOf .loadStart ++
        [.loadStart c.me (tmpPath chip) (data ++ chunkPayload body)] := by
  have h' := h.keeps (Keeps.emit (.execute body) c)
  have hacc : AcceptsChunk (c.emit (.execute body)) body :=
    ⟨hchip.trans h.chipId.symm, hsn.imp_right fun heq => heq.trans h.sn.symm⟩
  obtain ⟨files, hdescr, hcontent, hrecv⟩ := h'.receive hw hacc hlen
  rw [if_pos hlast, ← received_of_running h.isRunLoadfile] at hrecv
  obtain ⟨hrun, hok, hcont⟩ := closeTransfer_flags true
    (storeChunk body (chunkPayload body) files (c.emit (.execute body)))
  rw [← hrecv] at hrun hok hcont
  have hsame := sameCard_received body c
  have hstart : startedLoad (received body c) =
      [.loadStart c.me (tmpPath chip) (data ++ chunkPayload body)] := by
    have hfile : (received body c).host.files.content (tmpPath chip) =
        some (data ++ chunkPayload body) := by
      rw [hcont]
      change files.content _ = _
      rw [hcontent, Function.update_self]
    have hvalid : ioXdmaIsValidChipid (received body c).host (received body c).sect.chipId =
        true := by
      rw [ioXdmaIsValidChipid, hsame.cards, hsame.chipId, h.chipId]
      exact h.isValid
    rw [startedLoad, if_pos ⟨hrun, hok, hvalid⟩, hsame.path, h.path, hfile, hsame.me]
    rfl
  obtain ⟨hkeeps, hevents, -⟩ := command_fileTransfer hcmd c
  exact ⟨by rw [hkeeps.isRunLoadfile, hrun], by rw [hevents, hstart]⟩

/-- A chunk that is not accepted, or that makes the file too long without being marked as the
last one, gives the transfer up, and nothing is loaded. -/
theorem Transferring.command_failed (h : Transferring c chip len k data)
    (hw : WritesAll c.host.env) (hcmd : cardCmd (u16 body 0) = .fileTransfer)
    (hfail : ¬ AcceptsChunk c body ∨ body.length < 12 ∨
      chunkSn body ≠ -1 ∧ len < (data ++ chunkPayload body).length) :
    (command body c).sect.isRunLoadfile = false ∧
      (command body c).host.eventsOf .loadStart = c.host.eventsOf .loadStart := by
  have hrecv : (received body c).sect.isRunLoadfile = false ∧
      (received body c).sect.isLoadfileOk = false := by
    have hclosed (c₁ : Ctx) : (closeTransfer false c₁).sect.isRunLoadfile = false ∧
        (closeTransfer false c₁).sect.isLoadfileOk = false :=
      ⟨(closeTransfer_flags false c₁).1, (closeTransfer_flags false c₁).2.1⟩
    have h' := h.keeps (Keeps.emit (.execute body) c)
    rw [received_of_running h.isRunLoadfile]
    by_cases hacc : AcceptsChunk (c.emit (.execute body)) body
    · rcases hfail with hnot | hshort | ⟨hsn, hlong⟩
      · exact absurd hacc hnot
      · rw [receiveChunk_of_not_stored hacc fun hst => absurd hst.2.1 (not_le.mpr hshort)]
        exact hclosed _
      · by_cases hlen : body.length < 12
        · rw [receiveChunk_of_not_stored hacc fun hst => absurd hst.2.1 (not_le.mpr hlen)]
          exact hclosed _
        obtain ⟨files, -, -, hrecv⟩ := h'.receive hw hacc (by omega)
        have hlast : ¬ ((data ++ chunkPayload body).length = len ∨ chunkSn body = -1 ∨
            chunkPayload body = [] ∧ data.length < len) := by
          rintro (heq | heq | ⟨heq, hlt⟩)
          · omega
          · exact hsn heq
          · rw [heq, List.append_nil] at hlong
            omega
        rw [hrecv, if_neg hlast, if_pos hlong]
        exact hclosed _
    · exact (receiveChunk_rejected body.length hacc).2
  obtain ⟨hkeeps, hevents, -⟩ := command_fileTransfer hcmd c
  refine ⟨by rw [hkeeps.isRunLoadfile, hrecv.1], ?_⟩
  rw [hevents, startedLoad_of_not_ok hrecv.2, List.append_nil]

end Chunks

end M57Card.M57
