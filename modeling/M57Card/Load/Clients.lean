import M57Card.Load.Channel

/-!
# Load sessions of several clients

The event loop of the server handles the frames of all clients one at a time, in any order. Each
client has a section of its own; the files, the descriptors and the write channel to the FPGA are
shared. Nothing reserves the channel or the temporary file of a chip for a session: the start
command is written when LOAD arrives, the file and the stop command only with the last chunk, and
frames of any client that are handled in between write to the channel as they come.

A load itself is not interrupted: the blocks of the file and the stop command are written while one
FILE_TRANSFER is handled. If no frame in between opens the file of the session again or reaches it
through a descriptor, the file has exactly the bytes of its client; if in addition no frame in
between writes to the channel, nothing but the blocks lies between the start and the stop command.

## Main definitions

* `ServerState`, `serverStep`, `ServerRun` : a server with its clients.
* `LoadSession`, `SeparateLoad`, `SessionsSeparate` : a session and what it is to keep apart.
* `LeavesFile` : a frame does not reach the file of a session.

## Main results

* `keepsFile_effect` : the frames of other clients leave the file of a session alone.
* `sessions_separate` : what lies between the start and the stop command of a session.
-/

namespace M57Card.M57

open Net Bytes

/-- A server: the sections of its clients, and the host that they share. -/
structure ServerState where
  sect : ℕ → TcpSection := fun _ => {}
  host : Host

/-- The server as the client `A` sees it. -/
def ServerState.ctx (s : ServerState) (A : ℕ) : Ctx :=
  { me := A, sect := s.sect A, host := s.host }

/-- A frame of a client is handled. -/
def serverStep (l : ℕ × Input) (s : ServerState) : ServerState where
  sect := Function.update s.sect l.1 (l.2.effect (s.ctx l.1)).sect
  host := (l.2.effect (s.ctx l.1)).host

/-- A server on a host with the given cards, before any frame. -/
def ServerState.start (env : Env) (cards : ℕ → Bool) : ServerState := { host := { env, cards } }

/-- Frames of clients one after the other, from the state `s₀` on, each while the process lives and
in a state where `ok` holds. -/
abbrev ServerRun (ok : ServerState → ℕ × Input → Prop) (s₀ : ServerState) :
    List (ℕ × Input) → ServerState → Prop :=
  LabelRun serverStep (fun s => s.host.exited = false) ok s₀

/-! ### The file of a session -/

/-- The descriptor `fd` and the file of `chip` are the same, and no card is lost. -/
structure KeepsFile (fd chip : ℕ) (h h' : Host) : Prop where
  descr : h'.files.descr fd = h.files.descr fd
  content : h'.files.content (tmpPath chip) = h.files.content (tmpPath chip)
  cards : ∀ i, h.cards i = true → h'.cards i = true

section KeepsFile

variable {fd chip : ℕ} {h₁ h₂ h₃ : Host} {c c' : Ctx}

theorem KeepsFile.refl (h : Host) : KeepsFile fd chip h h := ⟨rfl, rfl, fun _ => id⟩

theorem KeepsFile.trans (h₁₂ : KeepsFile fd chip h₁ h₂) (h₂₃ : KeepsFile fd chip h₂ h₃) :
    KeepsFile fd chip h₁ h₃ :=
  ⟨h₂₃.descr.trans h₁₂.descr, h₂₃.content.trans h₁₂.content,
    fun i hi => h₂₃.cards i (h₁₂.cards i hi)⟩

theorem Keeps.keepsFile (h : Keeps c c') : KeepsFile fd chip c.host c'.host :=
  ⟨by rw [h.descr], h.content chip, h.cards⟩

theorem keepsFile_closeFile {fd' : ℕ} (hne : fd' ≠ fd) (h : Host) :
    KeepsFile fd chip h (h.closeFile fd') := by
  refine ⟨?_, ?_, fun _ => id⟩
  · change (h.files.close fd').descr fd = _
    rw [FileTable.descr_close, Function.update_of_ne hne.symm]
  · change (h.files.close fd').content _ = _
    rw [FileTable.content_close]

theorem keepsFile_createTmpPath (hne : c.sect.file.fd ≠ fd) :
    KeepsFile fd chip c.host (createTmpPath c).host := by
  rw [createTmpPath]
  dsimp only
  split_ifs
  · exact keepsFile_closeFile hne c.host
  · exact .refl _

theorem keepsFile_openTmpFile (hopen : (c.host.files.descr fd).isSome)
    (hpath : tmpPath chip ≠ c.sect.file.path) :
    KeepsFile fd chip c.host (openTmpFile c).host := by
  rw [openTmpFile]
  split_ifs
  · exact ⟨rfl, rfl, fun _ => id⟩
  · exact ⟨FileTable.descr_create_of_isSome hopen _, FileTable.content_create_of_ne hpath _,
      fun _ => id⟩

/-- A LOAD for another chip leaves the file alone, if the section has another descriptor. -/
theorem keepsFile_executeLoad {body : List UInt8} (cn : Conn Ctx)
    (hopen : (cn.proto.host.files.descr fd).isSome)
    (hother : ioXdmaIsValidChipid cn.proto.host (u16 body 8) = true →
      u16 body 8 ≠ chip ∧ cn.proto.sect.file.fd ≠ fd) :
    KeepsFile fd chip cn.proto.host (executeLoad body cn).1.proto.host := by
  cases hv : ioXdmaIsValidChipid cn.proto.host (u16 body 8) with
  | false =>
    rw [executeLoad_rejected cn hv]
    exact .refl _
  | true =>
    obtain ⟨hchip, hfd⟩ := hother hv
    set c₁ := cn.proto.onSect (loadSection body) with hc₁
    have hclose : KeepsFile fd chip cn.proto.host (createTmpPath c₁).host :=
      keepsFile_createTmpPath (c := c₁) hfd
    have hpath : tmpPath chip ≠ (createTmpPath c₁).sect.file.path := by
      obtain ⟨files, htmp⟩ := createTmpPath_eq c₁
      rw [htmp]
      exact fun heq => hchip (tmpPath_injective heq).symm
    have hfile : KeepsFile fd chip cn.proto.host (openTmpFile (createTmpPath c₁)).host :=
      hclose.trans (keepsFile_openTmpFile (by rw [hclose.descr]; exact hopen) hpath)
    have hv' : ¬ ioXdmaIsValidChipid c₁.host (u16 body 8) = false :=
      fun hfalse => Bool.noConfusion (hv.symm.trans hfalse)
    rw [executeLoad, ← hc₁, if_neg hv']
    dsimp only
    split_ifs
    · exact hfile
    · exact hfile.trans ⟨rfl, rfl, fun _ => id⟩

theorem keepsFile_closeTransfer (hne : c.sect.file.fd ≠ fd) (ok : Bool) :
    KeepsFile fd chip c.host (closeTransfer ok c).host := by
  rw [closeTransfer]
  split_ifs
  · exact keepsFile_closeFile hne c.host
  · exact .refl _

theorem keepsFile_writeFile {fd' : ℕ} {h : Host} (hne : fd' ≠ fd)
    (hfile : ∀ offset, h.files.descr fd' ≠ some (.file (tmpPath chip) offset))
    (bytes : List UInt8) : KeepsFile fd chip h (h.writeFile fd' bytes).2 := by
  rw [Host.writeFile]
  split
  · exact .refl h
  · split
    · exact .refl h
    · next hwrite =>
      exact ⟨FileTable.descr_write_of_ne hwrite hne.symm,
        FileTable.content_write_of_ne hwrite hfile, fun _ => id⟩

/-- A chunk of another client leaves the file alone, if its descriptor is another one and does not
refer to the file. -/
theorem keepsFile_receiveChunk (contentLength : ℕ) (body : List UInt8)
    (hne : c.sect.file.fd ≠ fd)
    (hfile : ∀ offset, c.host.files.descr c.sect.file.fd ≠ some (.file (tmpPath chip) offset)) :
    KeepsFile fd chip c.host (receiveChunk contentLength body c).host := by
  set c₁ := c.onSect fun s =>
    { s with file := { s.file with sn := nextSn (i16 (u16 body 10)) s.file } } with hc₁
  set payload := (body.drop 12).take ((contentLength : ℤ) - 12).toNat
  have hrecv : KeepsFile fd chip c.host (recvFileOver payload (contentLength - 12) c₁).2.host := by
    have hwrite := keepsFile_writeFile (h := c.host) hne hfile payload
    rw [recvFileOver]
    dsimp only
    split_ifs
    all_goals first
      | exact .refl _
      | exact hwrite
  have hsame := sameCard_recvFileOver payload (contentLength - 12) c₁
  have hne' : (recvFileOver payload (contentLength - 12) c₁).2.sect.file.fd ≠ fd := by
    rw [hsame.fd]
    exact hne
  rw [receiveChunk]
  dsimp only
  split_ifs
  · exact .refl _
  · exact hrecv.trans (keepsFile_closeTransfer hne' true)
  · exact hrecv.trans (keepsFile_closeTransfer hne' false)
  · exact hrecv

/-- A frame of another client leaves the file alone, unless it opens the file again or reaches it
through a descriptor. -/
theorem keepsFile_effect {i : Input} (hopen : (c.host.files.descr fd).isSome)
    (hload : ∀ body, i.ofCmd .load = some body → ioXdmaIsValidChipid c.host (u16 body 8) = true →
      u16 body 8 ≠ chip ∧ c.sect.file.fd ≠ fd)
    (htrans : ∀ body, i.ofCmd .fileTransfer = some body → c.sect.isRunLoadfile = true →
      c.sect.file.fd ≠ fd ∧
        ∀ offset, c.host.files.descr c.sect.file.fd ≠ some (.file (tmpPath chip) offset)) :
    KeepsFile fd chip c.host (i.effect c).host := by
  rcases hi : i.ofCmd .load with _ | body
  · rcases hi' : i.ofCmd .fileTransfer with _ | body
    · exact (Input.keeps_effect hi hi' c).keepsFile
    · have hother := htrans body hi'
      obtain ⟨rfl, hcmd⟩ := Input.ofCmd_eq_some_iff.mp hi'
      have hreceived : KeepsFile fd chip c.host (received body c).host := by
        rw [received]
        by_cases hrun : c.sect.isRunLoadfile = false
        · rw [if_pos hrun]
          exact (Keeps.emit _ c).keepsFile
        · rw [if_neg hrun]
          obtain ⟨hne, hfile⟩ := hother (Bool.eq_true_of_not_eq_false hrun)
          exact (Keeps.emit (.execute body) c).keepsFile.trans
            (keepsFile_receiveChunk (c := c.emit (.execute body)) _ body hne hfile)
      exact hreceived.trans (command_fileTransfer hcmd c).1.keepsFile
  · have hother := hload body hi
    obtain ⟨rfl, hcmd⟩ := Input.ofCmd_eq_some_iff.mp hi
    have hswitch : KeepsFile fd chip (c.emit (.execute body)).host
        (executeLoad body { proto := c.emit (.execute body) }).1.proto.host :=
      keepsFile_executeLoad { proto := c.emit (.execute body) } hopen hother
    have hkeeps := keeps_command body c
    rw [executeSwitch_load hcmd] at hkeeps
    exact ((Keeps.emit (.execute body) c).keepsFile.trans hswitch).trans hkeeps.keepsFile

end KeepsFile

/-! ### Sessions -/

/-- A frame of the client `A`. -/
def inputOf (A : ℕ) (l : ℕ × Input) : Option Input := if l.1 = A then some l.2 else none

/-- The bytes that the client `A` transfers with its frames among `ls`. -/
def bytesOf (A : ℕ) (ls : List (ℕ × Input)) : List UInt8 :=
  (chunksOf (ls.filterMap (inputOf A))).flatMap chunkPayload

/-- The writes to the FPGA between two moments. -/
def channelWrites (h h' : Host) : List Event := (newEvents h h').filter fun e => e.kind = .xdma

/-- A frame inside a session of the client `A`: `A` sends no LOAD and starts no load. -/
def InSession (A : ℕ) (s : ServerState) (l : ℕ × Input) : Prop :=
  l.1 = A → l.2.ofCmd .load = none ∧
    ∀ body, l.2.ofCmd .fileTransfer = some body → ¬ StartsLoad (s.ctx A) body

/-- A load session of the client `A`, from `s₁` on: a LOAD that is accepted, frames of all clients
that lead to `s₂`, each where `ok` holds, and a FILE_TRANSFER with which the stop command is
written. -/
structure LoadSession (ok : ServerState → ℕ × Input → Prop) (s₁ : ServerState) (A : ℕ)
    (load : List UInt8) (mid : List (ℕ × Input)) (s₂ : ServerState) (last : List UInt8) : Prop where
  live : s₁.host.exited = false
  isOpen : (s₁.sect A).isExitting = false
  load_cmd : cardCmd (u16 load 0) = .load
  load_valid : ioXdmaIsValidChipid s₁.host (u16 load 8) = true
  run : ServerRun (fun s l => InSession A s l ∧ ok s l) (serverStep (A, .cmd load) s₁) mid s₂
  live_last : s₂.host.exited = false
  last_cmd : cardCmd (u16 last 0) = .fileTransfer
  stop : stopWrite (u16 load 8) ∈ newEvents s₂.host (serverStep (A, .cmd last) s₂).host

/-- With the step from `h₂` to `h₃` the client `A` loads `f` for `chip`, and the writes to the FPGA
since `h₁` are the start command, `between`, the blocks of `f` and the stop command. -/
structure SeparateLoad (h₁ h₂ h₃ : Host) (A chip : ℕ) (f : List UInt8) (between : List Event) :
    Prop where
  loaded : .loadStart A (tmpPath chip) f ∈ newEvents h₂ h₃
  writes : ∃ bs, WrittenBlocks h₁.env f bs ∧ channelWrites h₁ h₃ =
    startWrite chip :: (between ++ (blockWrites bs ++ [stopWrite chip]))

/-- Each session from `s₁` on in which the frames meet `ok` loads what its client has transferred,
and what is written to the FPGA between the start command and the file is `between`. -/
def SessionsSeparate (ok : ℕ → ServerState → ℕ × Input → Prop)
    (between : Host → Host → List Event) (s₁ : ServerState) : Prop :=
  ∀ A load mid s₂ last, LoadSession (ok A) s₁ A load mid s₂ last →
    SeparateLoad s₁.host s₂.host (serverStep (A, .cmd last) s₂).host A (u16 load 8)
      (bytesOf A (mid ++ [(A, .cmd last)]))
      (between (serverStep (A, .cmd load) s₁).host s₂.host)

/-- Whatever other clients do, a FILE_TRANSFER writes nothing to the FPGA, or it loads a file and
writes, one behind the other, the blocks of the file and the stop command. -/
def LoadsUninterrupted (s : ServerState) : Prop :=
  ∀ A body, s.host.exited = false → (s.sect A).isExitting = false →
    cardCmd (u16 body 0) = .fileTransfer →
    channelWrites s.host (serverStep (A, .cmd body) s).host = [] ∨
      ∃ file bs, .loadStart A (s.sect A).file.path file ∈
          newEvents s.host (serverStep (A, .cmd body) s).host ∧
        WrittenBlocks s.host.env file bs ∧
        channelWrites s.host (serverStep (A, .cmd body) s).host =
          blockWrites bs ++ [stopWrite (s.sect A).chipId]

/-- A frame leaves the file of the session of `A` alone: if another client sends it, it does not
open the file again, and it reaches the file neither through the number of its descriptor nor
through another descriptor. -/
def LeavesFile (A : ℕ) (s : ServerState) (l : ℕ × Input) : Prop :=
  l.1 ≠ A →
    (∀ body, l.2.ofCmd .load = some body → ioXdmaIsValidChipid s.host (u16 body 8) = true →
      u16 body 8 ≠ (s.sect A).chipId ∧ (s.sect l.1).file.fd ≠ (s.sect A).file.fd) ∧
    (∀ body, l.2.ofCmd .fileTransfer = some body → (s.sect l.1).isRunLoadfile = true →
      (s.sect l.1).file.fd ≠ (s.sect A).file.fd ∧ ∀ offset,
        s.host.files.descr (s.sect l.1).file.fd ≠ some (.file (s.sect A).file.path offset))

section Steps

variable {A : ℕ} {s s₁ s₂ : ServerState} {l : ℕ × Input} {load : List UInt8}
  {mid : List (ℕ × Input)}

theorem ctx_serverStep_self (A : ℕ) (i : Input) (s : ServerState) :
    (serverStep (A, i) s).ctx A = i.effect (s.ctx A) := by
  have hsect : (serverStep (A, i) s).sect A = (i.effect (s.ctx A)).sect :=
    Function.update_self _ _ _
  have hme : A = (i.effect (s.ctx A)).me := (Input.effect_frame i (s.ctx A)).1.symm
  rw [ServerState.ctx, hsect]
  exact congrArg (Ctx.mk · _ _) hme

theorem ctx_serverStep_of_ne (hne : l.1 ≠ A) (s : ServerState) :
    (serverStep l s).ctx A =
      { me := A, sect := s.sect A, host := (l.2.effect (s.ctx l.1)).host } := by
  have hsect : (serverStep l s).sect A = s.sect A := Function.update_of_ne hne.symm _ _
  rw [ServerState.ctx, hsect]
  rfl

theorem grows_serverStep (l : ℕ × Input) (s : ServerState) :
    Grows (fun _ => True) s.host (serverStep l s).host := grows_effect l.2 (s.ctx l.1)

theorem grows_serverRun {ok : ServerState → ℕ × Input → Prop} (hrun : ServerRun ok s₁ mid s₂) :
    Grows (fun _ => True) s₁.host s₂.host :=
  LabelRun.invariant (fun _ s => Grows (fun _ => True) s₁.host s.host) (.refl _)
    (fun _ s l _ _ _ hgrows => hgrows.trans (grows_serverStep l s)) hrun

theorem eventsOf_channelWrites {h h' : Host} (hgrows : Grows (fun _ => True) h h') :
    h'.eventsOf .xdma = h.eventsOf .xdma ++ channelWrites h h' := by
  obtain ⟨es, hes, -⟩ := hgrows
  rw [Host.eventsOf, hes, List.filter_append, channelWrites, newEvents_of_append hes]
  rfl

theorem channelWrites_of_eventsOf {h h' : Host} {es : List Event}
    (hgrows : Grows (fun _ => True) h h') (hes : h'.eventsOf .xdma = h.eventsOf .xdma ++ es) :
    channelWrites h h' = es :=
  List.append_cancel_left ((eventsOf_channelWrites hgrows).symm.trans hes)

theorem Transferring.keepsFile {c : Ctx} {chip len k : ℕ} {data : List UInt8} {h : Host}
    (ht : Transferring c chip len k data) (hkeeps : KeepsFile c.sect.file.fd chip c.host h) :
    Transferring { c with host := h } chip len k data :=
  { ht with
    isValid := hkeeps.cards _ ht.isValid
    descr := hkeeps.descr.trans ht.descr
    content := hkeeps.content.trans ht.content }

/-- A FILE_TRANSFER that starts no load carries the transfer on or gives it up. -/
theorem Transferring.command_of_not_startsLoad {c : Ctx} {chip len k : ℕ} {data body : List UInt8}
    (h : Transferring c chip len k data) (hw : WritesAll c.host.env)
    (hcmd : cardCmd (u16 body 0) = .fileTransfer) (hnot : ¬ StartsLoad c body) :
    Transferring (command body c) chip len (k + 1) (data ++ chunkPayload body) ∨
      (command body c).sect.isRunLoadfile = false ∧
        (command body c).sect.isLoadfileOk = false := by
  obtain ⟨hgoes, hends⟩ := received_flags body h.isRunLoadfile
  obtain ⟨hkeeps, -, -⟩ := command_fileTransfer hcmd c
  have hvalid : ioXdmaIsValidChipid c.host c.sect.chipId = true := h.chipId ▸ h.isValid
  have hincomplete : ¬ (AcceptsChunk c body ∧ StoresChunk (c.emit (.execute body)) body ∧
      EndsTransfer c body) := by
    intro hall
    refine hnot ⟨hvalid, ?_⟩
    rwa [if_pos h.isRunLoadfile]
  by_cases hcont : Continues c body
  · obtain ⟨-, hacc, hstores, hnotend, hle⟩ := hcont
    obtain ⟨htotal, hlast, hempty⟩ :=
      not_or.mp ((h.endsTransfer_iff hacc).not.mp hnotend) |>.imp_right not_or.mp
    rw [h.lenOffset, h.len, ← List.length_append] at hle
    have hlt := lt_of_le_of_ne hle htotal
    refine .inl (h.command_middle hw hcmd (hacc.1.trans h.chipId)
      ((hacc.2.resolve_left hlast).trans h.sn) (fun hnil => hempty ⟨hnil, ?_⟩) hlt).1
    rwa [hnil, List.append_nil] at hlt
  · have hstop : (received body c).sect.isRunLoadfile = false :=
      Bool.eq_false_iff.mpr (hgoes.not.mpr hcont)
    have hok : (received body c).sect.isLoadfileOk = false :=
      Bool.eq_false_iff.mpr fun hok => hincomplete (hends.mp ⟨hstop, hok⟩)
    exact .inr ⟨hkeeps.isRunLoadfile.trans hstop, hkeeps.isLoadfileOk.trans hok⟩

/-- The invariant of a session: its transfer is open with the bytes that the client has sent, or it
has been given up. -/
structure SessionOf (A : ℕ) (s₁ : ServerState) (load : List UInt8) (mid : List (ℕ × Input))
    (s : ServerState) : Prop where
  env : s.host.env = s₁.host.env
  isOpen : (s.sect A).isExitting = (s₁.sect A).isExitting
  transfer : (∃ k, Transferring (s.ctx A) (u16 load 8) (u32 load 14) k (bytesOf A mid)) ∨
    (s.sect A).isRunLoadfile = false ∧ (s.sect A).isLoadfileOk = false

theorem bytesOf_append_of_ne (hne : l.1 ≠ A) : bytesOf A (mid ++ [l]) = bytesOf A mid := by
  have hother : inputOf A l = none := if_neg hne
  rw [bytesOf, List.filterMap_append, List.filterMap_cons_none hother, List.filterMap_nil,
    List.append_nil]
  rfl

theorem bytesOf_append_self (A : ℕ) (mid : List (ℕ × Input)) (i : Input) :
    bytesOf A (mid ++ [(A, i)]) =
      bytesOf A mid ++ ((i.ofCmd .fileTransfer).map chunkPayload).getD [] := by
  have hself : inputOf A (A, i) = some i := if_pos rfl
  rw [bytesOf, List.filterMap_append, List.filterMap_cons_some hself, List.filterMap_nil, chunksOf,
    List.filterMap_append, List.flatMap_append]
  cases hi : i.ofCmd .fileTransfer with
  | none =>
    rw [List.filterMap_cons_none hi]
    rfl
  | some body =>
    rw [List.filterMap_cons_some hi, List.filterMap_nil, List.flatMap_singleton]
    rfl

/-- The invariant is kept by a frame of another client that leaves the file alone. -/
theorem SessionOf.step_other (h : SessionOf A s₁ load mid s) (hne : l.1 ≠ A)
    (hleaves : LeavesFile A s l) : SessionOf A s₁ load (mid ++ [l]) (serverStep l s) := by
  have hctx := ctx_serverStep_of_ne hne s
  have hsect : (serverStep l s).sect A = s.sect A := Function.update_of_ne hne.symm _ _
  obtain ⟨-, henv, -⟩ := Input.effect_frame l.2 (s.ctx l.1)
  refine ⟨henv.trans h.env, by rw [hsect, h.isOpen], ?_⟩
  rw [hctx, hsect, bytesOf_append_of_ne hne]
  refine h.transfer.imp_left ?_
  rintro ⟨k, htrans⟩
  refine ⟨k, htrans.keepsFile ?_⟩
  obtain ⟨hload, hchunk⟩ := hleaves hne
  rw [show (s.sect A).chipId = u16 load 8 from htrans.chipId] at hload
  rw [show (s.sect A).file.path = tmpPath (u16 load 8) from htrans.path] at hchunk
  exact keepsFile_effect (c := s.ctx l.1) htrans.hasOpenFile.2 hload hchunk

/-- The invariant is kept by a frame of the client itself. -/
theorem SessionOf.step_self {i : Input} (h : SessionOf A s₁ load mid s)
    (hw : WritesAll s₁.host.env) (hin : InSession A s (A, i)) :
    SessionOf A s₁ load (mid ++ [(A, i)]) (serverStep (A, i) s) := by
  obtain ⟨hload, hnot⟩ := hin rfl
  obtain ⟨-, henv, hexit⟩ := Input.effect_frame i (s.ctx A)
  have hctx := ctx_serverStep_self A i s
  have hsect : (serverStep (A, i) s).sect A = (i.effect (s.ctx A)).sect :=
    Function.update_self _ _ _
  refine ⟨henv.trans h.env, by rw [hsect]; exact hexit.trans h.isOpen, ?_⟩
  rw [hctx, hsect, bytesOf_append_self]
  rcases hi : i.ofCmd .fileTransfer with _ | body
  · have hkeeps := Input.keeps_effect hload hi (s.ctx A)
    rw [hkeeps.isRunLoadfile, hkeeps.isLoadfileOk]
    refine h.transfer.imp_left ?_
    rintro ⟨k, htrans⟩
    refine ⟨k, ?_⟩
    rw [Option.map_none, Option.getD_none, List.append_nil]
    exact htrans.keeps hkeeps
  · have hstarts := hnot body hi
    obtain ⟨rfl, hcmd⟩ := Input.ofCmd_eq_some_iff.mp hi
    rcases h.transfer with ⟨k, htrans⟩ | ⟨hrun, hok⟩
    · have hw' : WritesAll (s.ctx A).host.env := by
        change WritesAll s.host.env
        rwa [h.env]
      exact (htrans.command_of_not_startsLoad hw' hcmd hstarts).imp_left fun hnext => ⟨k + 1, hnext⟩
    · obtain ⟨hkeeps, -, -⟩ := command_fileTransfer hcmd (s.ctx A)
      have hreceived : received body (s.ctx A) = (s.ctx A).emit (.execute body) := if_pos hrun
      rw [hreceived] at hkeeps
      exact .inr ⟨hkeeps.isRunLoadfile.trans hrun, hkeeps.isLoadfileOk.trans hok⟩

/-- The invariant holds in every live state of a session whose frames leave the file alone. -/
theorem sessionOf_of_run {ok : ServerState → ℕ × Input → Prop} (hw : WritesAll s₁.host.env)
    (hok : ∀ s l, ok s l → LeavesFile A s l) (hlive : s₁.host.exited = false)
    (hcmd : cardCmd (u16 load 0) = .load)
    (hv : ioXdmaIsValidChipid s₁.host (u16 load 8) = true)
    (hrun : ServerRun (fun s l => InSession A s l ∧ ok s l) (serverStep (A, .cmd load) s₁) mid s₂)
    (hlive₂ : s₂.host.exited = false) : SessionOf A s₁ load mid s₂ := by
  refine LabelRun.invariant (fun mid s => s.host.exited = false → SessionOf A s₁ load mid s)
    ?_ ?_ hrun hlive₂
  · intro hlive'
    obtain ⟨-, henv, hexit⟩ := command_frame load (s₁.ctx A)
    have hsect : (serverStep (A, .cmd load) s₁).sect A = (command load (s₁.ctx A)).sect :=
      Function.update_self _ _ _
    refine ⟨henv, by rw [hsect]; exact hexit, .inl ⟨0, ?_⟩⟩
    rw [ctx_serverStep_self]
    rcases command_load_accepted (c := s₁.ctx A) hcmd hlive hv with hexited | ⟨htrans, -⟩
    · exact Bool.noConfusion (hlive'.symm.trans hexited)
    · exact htrans
  · intro mid s l _ hlive hstep ih _
    by_cases hA : l.1 = A
    · obtain ⟨B, i⟩ := l
      obtain rfl : B = A := hA
      exact (ih hlive).step_self hw hstep.1
    · exact (ih hlive).step_other hA (hok s l hstep.2)

/-- The FILE_TRANSFER with which the stop command is written loads the bytes of the transfer. -/
theorem Transferring.writes_last {c : Ctx} {chip len k : ℕ} {data last : List UInt8}
    (h : Transferring c chip len k data) (hw : WritesAll c.host.env)
    (hcmd : cardCmd (u16 last 0) = .fileTransfer) (hlive : c.host.exited = false)
    (hopen : c.sect.isExitting = false) (hstarts : StartsLoad c last)
    (hstop : (command last c).host.eventsOf .xdma ≠ c.host.eventsOf .xdma) :
    (command last c).host.eventsOf .loadStart = c.host.eventsOf .loadStart ++
        [.loadStart c.me (tmpPath chip) (data ++ chunkPayload last)] ∧
      ∃ bs, WrittenBlocks c.host.env (data ++ chunkPayload last) bs ∧
        (command last c).host.eventsOf .xdma = c.host.eventsOf .xdma ++
          (blockWrites bs ++ [stopWrite chip]) := by
  obtain ⟨-, hcond⟩ := hstarts
  rw [if_pos h.isRunLoadfile] at hcond
  obtain ⟨hacc, hstores, hends⟩ := hcond
  obtain ⟨-, hload⟩ := h.command_last hw hcmd (hacc.1.trans h.chipId)
    (hacc.2.imp_right fun heq => heq.trans h.sn) hstores.2.1 ((h.endsTransfer_iff hacc).mp hends)
  rcases eventsOf_xdma_fileTransfer hcmd hlive hopen with
    hsame | ⟨file, bs, -, hstart, hbs, hevents⟩
  · exact absurd hsame hstop
  · have heq := List.append_cancel_left (hstart.symm.trans hload)
    obtain ⟨-, -, rfl⟩ := Event.loadStart.inj (List.cons.inj heq).1
    rw [h.chipId] at hevents
    exact ⟨hload, bs, hbs, hevents⟩

theorem loadsUninterrupted (s : ServerState) : LoadsUninterrupted s := by
  intro A body hlive hopen hcmd
  have hgrows := grows_serverStep (A, .cmd body) s
  rcases eventsOf_xdma_fileTransfer (c := s.ctx A) hcmd hlive hopen with
    hsame | ⟨file, bs, -, hstart, hbs, hevents⟩
  · exact .inl (channelWrites_of_eventsOf hgrows (hsame.trans (List.append_nil _).symm))
  · refine .inr ⟨file, bs, ?_, hbs, channelWrites_of_eventsOf hgrows hevents⟩
    exact hgrows.mem_newEvents (e := .loadStart A _ file) hstart (List.mem_singleton_self _)

/-- A session whose frames leave its file alone loads the bytes of its client. -/
theorem separateLoad_of_leavesFile {ok : ServerState → ℕ × Input → Prop} {last : List UInt8}
    (hw : WritesAll s₁.host.env) (hok : ∀ s l, ok s l → LeavesFile A s l)
    (h : LoadSession ok s₁ A load mid s₂ last) :
    SeparateLoad s₁.host s₂.host (serverStep (A, .cmd last) s₂).host A (u16 load 8)
      (bytesOf A (mid ++ [(A, .cmd last)]))
      (channelWrites (serverStep (A, .cmd load) s₁).host s₂.host) := by
  have hinv := sessionOf_of_run hw hok h.live h.load_cmd h.load_valid h.run h.live_last
  have hgrows := grows_serverStep (A, .cmd last) s₂
  have hchange : (command last (s₂.ctx A)).host.eventsOf .xdma ≠ s₂.host.eventsOf .xdma := by
    intro hsame
    have hmem := hgrows.mem_of_newEvents (e := stopWrite (u16 load 8)) (l := [])
      (hsame.trans (List.append_nil _).symm) h.stop
    exact List.not_mem_nil hmem
  have hstarts : StartsLoad (s₂.ctx A) last := by
    by_contra hnot
    refine hchange (eventsOf_xdma_command (c := s₂.ctx A) ?_)
    simpa only [WritesChannel, h.last_cmd] using hnot
  rcases hinv.transfer with ⟨k, htrans⟩ | ⟨hrun, hfail⟩
  · have hw₂ : WritesAll (s₂.ctx A).host.env := by
      change WritesAll s₂.host.env
      rwa [hinv.env]
    obtain ⟨hload, bs, hbs, hevents⟩ := htrans.writes_last hw₂ h.last_cmd h.live_last
      (hinv.isOpen.trans h.isOpen) hstarts hchange
    have hchunk : Input.ofCmd .fileTransfer (.cmd last) = some last := if_pos h.last_cmd
    have hbytes : bytesOf A (mid ++ [(A, .cmd last)]) = bytesOf A mid ++ chunkPayload last := by
      rw [bytesOf_append_self, hchunk]
      rfl
    rw [hbytes]
    refine ⟨?_, bs, ?_, ?_⟩
    · exact hgrows.mem_newEvents (e := .loadStart A _ _) hload (List.mem_singleton_self _)
    · rw [← hinv.env]
      exact hbs
    · have hrunGrows := grows_serverRun h.run
      have hstart := eventsOf_xdma_load (c := s₁.ctx A) h.load_cmd h.live h.load_valid
        (h.run.live_start h.live_last)
      refine channelWrites_of_eventsOf
        (((grows_serverStep (A, .cmd load) s₁).trans hrunGrows).trans hgrows) ?_
      calc (serverStep (A, .cmd last) s₂).host.eventsOf .xdma
          = s₂.host.eventsOf .xdma ++ (blockWrites bs ++ [stopWrite (u16 load 8)]) := hevents
        _ = (serverStep (A, .cmd load) s₁).host.eventsOf .xdma ++
              channelWrites (serverStep (A, .cmd load) s₁).host s₂.host ++
              (blockWrites bs ++ [stopWrite (u16 load 8)]) := by
            rw [eventsOf_channelWrites hrunGrows]
        _ = s₁.host.eventsOf .xdma ++ [startWrite (u16 load 8)] ++
              channelWrites (serverStep (A, .cmd load) s₁).host s₂.host ++
              (blockWrites bs ++ [stopWrite (u16 load 8)]) := by
            exact congrArg (· ++ _ ++ _) hstart
        _ = _ := by simp only [List.append_assoc, List.cons_append, List.nil_append]
  · obtain ⟨-, hcond⟩ := hstarts
    rw [if_neg (by exact Bool.eq_false_iff.mp hrun)] at hcond
    exact Bool.noConfusion (hfail.symm.trans hcond)

/-- Frames that do not write to the FPGA leave nothing between two moments. -/
theorem channelWrites_of_run {ok : ServerState → ℕ × Input → Prop}
    (hok : ∀ s l, ok s l → ¬ WritesChannel (s.ctx l.1) l.2) (hrun : ServerRun ok s₁ mid s₂) :
    channelWrites s₁.host s₂.host = [] := by
  refine channelWrites_of_eventsOf (grows_serverRun hrun) ?_
  rw [List.append_nil]
  refine LabelRun.invariant (fun _ s => s.host.eventsOf .xdma = s₁.host.eventsOf .xdma) rfl ?_ hrun
  intro _ s l _ _ hstep ih
  exact (eventsOf_xdma_of_not_writesChannel (hok s l hstep)).trans ih

/-- **What load sessions keep apart.** Whatever the clients send and in whatever order, the file of
a load and its stop command are written without interruption. In a session whose frames leave its
file alone, the file has exactly the bytes of the client that sent the LOAD, and between the start
command and the file lies what the frames in between have written to the channel; if these frames
write nothing to it, exactly the blocks of the file lie between the start and the stop command. -/
theorem sessions_separate (s₁ : ServerState) (hw : WritesAll s₁.host.env) :
    LoadsUninterrupted s₁ ∧ SessionsSeparate LeavesFile channelWrites s₁ ∧
      SessionsSeparate (fun A s l => LeavesFile A s l ∧ ¬ WritesChannel (s.ctx l.1) l.2)
        (fun _ _ => []) s₁ := by
  refine ⟨loadsUninterrupted s₁, fun A load mid s₂ last h => ?_, fun A load mid s₂ last h => ?_⟩
  · exact separateLoad_of_leavesFile hw (fun _ _ hl => hl) h
  · have hsep := separateLoad_of_leavesFile hw (fun _ _ hl => hl.1) h
    rwa [channelWrites_of_run (fun _ _ hl => hl.2.2) h.run] at hsep

/-- A file of one byte for chip `0x0502`, with a heartbeat of another client between the LOAD and
the chunk. -/
theorem sessions_separate_heartbeat :
    SeparateLoad (ServerState.start .reliable fun i => i == 5).host
      (serverStep (1, .cmd [0, 0, 0, 0, 0, 0, 0, 0])
        (serverStep (0, .cmd [5, 0, 8, 0, 0, 0, 0, 0, 2, 5, 0, 0, 0, 0, 1, 0, 0, 0])
          (.start .reliable fun i => i == 5))).host
      (serverStep (0, .cmd [9, 0, 8, 0, 0, 0, 0, 0, 2, 5, 0xff, 0xff, 0xaa])
        (serverStep (1, .cmd [0, 0, 0, 0, 0, 0, 0, 0])
          (serverStep (0, .cmd [5, 0, 8, 0, 0, 0, 0, 0, 2, 5, 0, 0, 0, 0, 1, 0, 0, 0])
            (.start .reliable fun i => i == 5)))).host
      0 0x0502 [0xaa] [] := by
  have hload : Input.ofCmd .load (.cmd [0, 0, 0, 0, 0, 0, 0, 0]) = none := by decide
  have hchunk : Input.ofCmd .fileTransfer (.cmd [0, 0, 0, 0, 0, 0, 0, 0]) = none := by decide
  have hleaves (s : ServerState) : LeavesFile 0 s (1, .cmd [0, 0, 0, 0, 0, 0, 0, 0]) := by
    refine fun _ => ⟨fun body hbody => ?_, fun body hbody => ?_⟩
    · exact absurd (hload.symm.trans hbody) (Option.some_ne_none body).symm
    · exact absurd (hchunk.symm.trans hbody) (Option.some_ne_none body).symm
  exact (sessions_separate (.start .reliable fun i => i == 5) fun _ _ => rfl).2.2 0 _
    [(1, .cmd [0, 0, 0, 0, 0, 0, 0, 0])] _ _
    { live := rfl
      isOpen := rfl
      load_cmd := by decide
      load_valid := by decide
      run := .snoc .nil (by decide) ⟨nofun, hleaves _, id⟩
      live_last := by decide
      last_cmd := by decide
      stop := by decide }

/-- Nothing holds back the data frame of another client that arrives between the LOAD and the last
chunk of a session: it is written to the FPGA between the start and the stop command. -/
theorem not_sessionsSeparate_data_frame :
    ¬ SessionsSeparate (fun _ _ _ => True) (fun _ _ => []) (.start .reliable fun i => i == 5) := by
  intro h
  obtain ⟨-, bs, hbs, hwrites⟩ := h 0 [5, 0, 8, 0, 0, 0, 0, 0, 2, 5, 0, 0, 0, 0, 1, 0, 0, 0]
    [(1, .data [0x51, 0x57, 0, 0, 12, 0, 0, 0, 1, 2, 3, 4])] _
    [9, 0, 8, 0, 0, 0, 0, 0, 2, 5, 0xff, 0xff, 0xaa]
    { live := rfl
      isOpen := rfl
      load_cmd := by decide
      load_valid := by decide
      run := .snoc .nil (by decide) ⟨nofun, trivial⟩
      live_last := by decide
      last_cmd := by decide
      stop := by decide }
  obtain rfl := hbs.all fun t n hn => Int.natCast_pos.mpr hn
  exact absurd hwrites (by decide)

end Steps

end M57Card.M57
