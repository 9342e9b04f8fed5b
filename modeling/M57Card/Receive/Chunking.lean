import M57Card.Answer.Requests
import M57Card.Receive.Frames

/-!
# Lists of frames, however they are read

The result of a list of well-formed frames does not depend on how their bytes are cut into reads
(`readAll_frames`), and every frame is executed or forwarded as long as the process lives. Two
commands can end it: a LOAD whose temporary file cannot be opened (`m57.c`, lines 1268–1271), and a
FILE_TRANSFER that loads a file without bytes, by whose size the progress line divides (line 408).
The frames behind such a command are lost, with the process.

## Main definitions

* `LoadsEmpty`, `Input.EndsProcess` : the inputs that end the process, in terms of the context
  before them.
* `AllSurvived` : no frame of a list ends it.
* `HandlesFrames` : all frames of a list are executed or forwarded, in order.

## Main results

* `exited_effect_iff` : an input ends the process exactly when `Input.EndsProcess` says so.
* `handlesFrames_iff` : whatever the reads are, the frames are handled exactly when none of them
  ends the process.
-/

namespace M57Card.M57

open Net Bytes

/-! ### Inputs that end the process -/

/-- The file that a FILE_TRANSFER loads can be opened and has no bytes. If a transfer is running,
what `write` stores of the chunk is in the file by then. -/
def LoadsEmpty (c : Ctx) (body : List UInt8) : Prop :=
  c.host.env.loadOpenFails (c.host.now + if c.sect.isRunLoadfile then 2 else 1) = false ∧
    ((if c.sect.isRunLoadfile then c.host.files.write c.sect.file.fd (storedBytes c body)
      else some c.host.files).bind fun files => files.content c.sect.file.path) = some []

instance (c : Ctx) (body : List UInt8) : Decidable (LoadsEmpty c body) :=
  inferInstanceAs (Decidable (_ ∧ _))

/-- The inputs that end the process: a LOAD for a chip that is present whose temporary file cannot
be opened, and a FILE_TRANSFER that loads an empty file. -/
def Input.EndsProcess (i : Input) (c : Ctx) : Prop :=
  match i with
  | .cmd body =>
      cardCmd (u16 body 0) = .load ∧ ioXdmaIsValidChipid c.host (u16 body 8) = true ∧
          c.host.env.openFails (c.host.now + 1) = true ∨
        cardCmd (u16 body 0) = .fileTransfer ∧ StartsLoad c body ∧ LoadsEmpty c body
  | _ => False

instance (i : Input) (c : Ctx) : Decidable (i.EndsProcess c) :=
  match i with
  | .cmd _ => inferInstanceAs (Decidable (_ ∨ _))
  | .keyRead _ | .keyWrite _ | .data _ => inferInstanceAs (Decidable False)

variable {c : Ctx} {body : List UInt8}

/-- The commands other than LOAD and FILE_TRANSFER do not end the process. -/
theorem exited_executeSwitch (contentLength : ℕ) (cn : Conn Ctx)
    (hload : cardCmd (u16 body 0) ≠ .load) (htrans : cardCmd (u16 body 0) ≠ .fileTransfer) :
    (executeSwitch contentLength body cn).1.proto.host.exited = cn.proto.host.exited := by
  unfold executeSwitch
  cases hcmd : cardCmd (u16 body 0) with
  | load => exact absurd hcmd hload
  | fileTransfer => exact absurd hcmd htrans
  | keyReadE2prom | beatHart | register | listInfo | readBoardInfo | other => rfl
  | keyWriteE2prom =>
    simp only [writeKeytoolHandle]
    split_ifs <;> rfl
  | dataSub =>
    obtain ⟨peers, heq⟩ := dataSub_eq body cn.proto
    simp only [heq]
    rfl
  | dataUnsub =>
    obtain ⟨peers, heq⟩ := onSubscription_eq clientHashDeleteItem body cn.proto
    simp only [dataUnsub, heq]
    rfl
  | unload =>
    simp only [executeUnload]
    split_ifs
    · rfl
    · exact (emits_m57StartUnloadBitfileFromFpga _ _).exited

/-- A load ends the process when the file can be opened and is empty. -/
theorem exited_loadingBitfile_iff (client : ℕ) (path : Path) {h : Host} (hlive : h.exited = false) :
    (m57LoadingBitfileToFpga client path h).2.exited = true ↔
      h.env.loadOpenFails h.now = false ∧ h.files.content path = some [] := by
  have hdead : ¬ h.exited = true := by rw [hlive]; decide
  unfold m57LoadingBitfileToFpga
  cases hfile : h.files.content path with
  | none => exact iff_of_false hdead fun hempty => absurd hempty.2 (Option.some_ne_none []).symm
  | some file =>
    dsimp only
    split_ifs with hfails hnil
    · exact iff_of_false hdead fun hempty => Bool.noConfusion (hfails.symm.trans hempty.1)
    · exact iff_of_true rfl ⟨Bool.eq_false_iff.mpr hfails, congrArg some hnil⟩
    · rw [(emits_loadingLoop _ _ _ _ _).exited]
      exact iff_of_false hdead fun hempty => hnil (Option.some.inj hempty.2)

/-- The end of a FILE_TRANSFER ends the process when it loads an empty file. -/
theorem exited_loadFileExit_iff {cn : Conn Ctx} (hlive : cn.proto.host.exited = false) :
    (loadFileExit cn).1.proto.host.exited = true ↔
      (cn.proto.sect.isRunLoadfile = false ∧ cn.proto.sect.isLoadfileOk = true ∧
        ioXdmaIsValidChipid cn.proto.host cn.proto.sect.chipId = true) ∧
      cn.proto.host.env.loadOpenFails cn.proto.host.now = false ∧
      cn.proto.host.files.content cn.proto.sect.file.path = some [] := by
  have hdead : ¬ cn.proto.host.exited = true := by rw [hlive]; decide
  by_cases hload : cn.proto.sect.isRunLoadfile = false ∧ cn.proto.sect.isLoadfileOk = true ∧
      ioXdmaIsValidChipid cn.proto.host cn.proto.sect.chipId = true
  · rw [and_iff_right hload,
      ← exited_loadingBitfile_iff cn.proto.me cn.proto.sect.file.path hlive, loadFileExit,
      if_pos hload.1, if_pos hload.2]
    generalize m57LoadingBitfileToFpga cn.proto.me cn.proto.sect.file.path cn.proto.host = r
    obtain ⟨ok, h⟩ := r
    dsimp only
    split_ifs
    · rfl
    · rw [exited_m57LoadBitOver]
    · -- the answers of a load that could not be started leave the process alone
      change (m57LoadBitOver false _).proto.host.exited = true ↔ _
      rw [exited_m57LoadBitOver]
  · refine iff_of_false ?_ fun h => hload h.1
    rw [loadFileExit]
    split_ifs with hrun hok
    · exact absurd ⟨hrun, hok⟩ hload
    · exact hdead
    · exact hdead

/-- What is loaded after a FILE_TRANSFER that starts a load, in terms of the context before it. -/
theorem loadsEmpty_iff (hstarts : StartsLoad c body) :
    LoadsEmpty c body ↔
      (received body c).host.env.loadOpenFails (received body c).host.now = false ∧
      (received body c).host.files.content (received body c).sect.file.path = some [] := by
  have hsame := sameCard_received body c
  have hnow : (c.emit (.execute body)).host.now = c.host.now + 1 := now_emit _ c.host
  rw [LoadsEmpty, hsame.env, hsame.path]
  cases hrun : c.sect.isRunLoadfile with
  | false =>
    rw [received, if_pos hrun]
    simp only [Bool.false_eq_true, if_false, Option.bind_some]
    rw [hnow]
    rfl
  | true =>
    obtain ⟨-, hcond⟩ := hstarts
    rw [if_pos hrun] at hcond
    obtain ⟨hacc, hstores, hends⟩ := hcond
    obtain ⟨k, files, hk, hwrite, hrecv⟩ :=
      receiveChunk_of_stored (c := c.emit (.execute body)) hacc hstores
    have hends' : EndsTransfer (c.emit (.execute body)) body := hends
    have hstored : storedBytes c body = (chunkPayload body).take k := by
      rw [hnow] at hk
      simp only [storedBytes]
      rw [show c.host.env = (c.emit (.execute body)).host.env from rfl, hk]
    have hfiles : c.host.files.write c.sect.file.fd (storedBytes c body) = some files := by
      rw [hstored]
      exact hwrite
    rw [received_of_running hrun, hrecv, if_pos hends', (closeTransfer_flags true _).2.2]
    have hnow' : (closeTransfer true (storeChunk body ((chunkPayload body).take k) files
        (c.emit (.execute body)))).host.now = c.host.now + 2 := by
      rw [Host.now, closeTransfer_trace]
      change ((c.emit (.execute body)).host.trace ++ [_]).length = _
      rw [List.length_append]
      exact congrArg (· + 1) hnow
    rw [hnow']
    simp only [if_true, hfiles, Option.bind_some]
    rfl

theorem exited_command_iff (hlive : c.host.exited = false) :
    (command body c).host.exited = true ↔ (Input.cmd body).EndsProcess c := by
  rw [exited_command, Input.EndsProcess]
  by_cases hload : cardCmd (u16 body 0) = .load
  · have hnow : (c.emit (.execute body)).host.now = c.host.now + 1 := now_emit _ c.host
    simp only [hload, true_and, reduceCtorEq, false_and, or_false]
    rw [executeSwitch_load hload, ← hnow]
    cases hv : ioXdmaIsValidChipid c.host (u16 body 8) with
    | false =>
      rw [executeLoad_rejected { proto := c.emit (.execute body) } hv]
      exact iff_of_false (Bool.eq_false_iff.mp hlive) fun h => Bool.noConfusion h.1
    | true =>
      rw [and_iff_right rfl]
      cases hopen : c.host.env.openFails (c.emit (.execute body)).host.now with
      | true =>
        exact iff_of_true (exited_executeLoad { proto := c.emit (.execute body) } hv hopen) rfl
      | false =>
        rw [(transferring_executeLoad { proto := c.emit (.execute body) } hv hlive hopen).2]
  simp only [hload, false_and, false_or]
  by_cases htrans : cardCmd (u16 body 0) = .fileTransfer
  · rw [and_iff_right htrans, executeSwitch_fileTransfer htrans,
      exited_loadFileExit_iff ((sameCard_received body c).exited.trans hlive), ← startsLoad_iff]
    exact and_congr_right fun hstarts => (loadsEmpty_iff hstarts).symm
  · rw [exited_executeSwitch body.length _ hload htrans]
    exact iff_of_false (Bool.eq_false_iff.mp hlive) fun h => htrans h.1

/-- **An input ends the process** exactly when `Input.EndsProcess` says so of the context before
it. -/
theorem exited_effect_iff (i : Input) (hlive : c.host.exited = false) :
    (i.effect c).host.exited = true ↔ i.EndsProcess c := by
  cases i with
  | cmd body => exact exited_command_iff hlive
  | keyRead rest =>
    rw [Input.effect, exited_command_iff (c := c.onSect _) hlive]
    simp only [Input.EndsProcess, cardCmd_keyRead, reduceCtorEq, false_and, or_false]
  | keyWrite rest =>
    rw [Input.effect, exited_command_iff (c := c.onSect _) hlive]
    simp only [Input.EndsProcess, cardCmd_keyWrite, reduceCtorEq, false_and, or_false]
  | data frame => exact iff_of_false (Bool.eq_false_iff.mp hlive) id

/-! ### Lists of frames -/

/-- No frame ends the process, each taken in the context that the frames before it lead to. -/
def AllSurvived : List (List UInt8) → Ctx → Prop
  | [], _ => True
  | f :: fs, c => ¬ (frameInput f).EndsProcess c ∧ AllSurvived fs (frameEffect f c)

instance : (fs : List (List UInt8)) → (c : Ctx) → Decidable (AllSurvived fs c)
  | [], _ => inferInstanceAs (Decidable True)
  | f :: fs, c =>
      have := instDecidableAllSurvived fs (frameEffect f c)
      inferInstanceAs (Decidable (_ ∧ _))

/-- The process lives behind a list of frames exactly when no frame of it ends the process. -/
theorem exited_runFrames_iff (fs : List (List UInt8)) (hlive : c.host.exited = false) :
    (runFrames fs c).host.exited = false ↔ AllSurvived fs c := by
  induction fs generalizing c with
  | nil => exact iff_of_true hlive trivial
  | cons f fs ih =>
    have hends : (frameEffect f c).host.exited = true ↔ (frameInput f).EndsProcess c :=
      exited_effect_iff (frameInput f) hlive
    rw [runFrames, AllSurvived, ← hends]
    split_ifs with hexit
    · exact iff_of_false (by rw [hexit]; decide) fun h => h.1 hexit
    · rw [ih (Bool.eq_false_iff.mpr hexit), and_iff_right hexit]

/-- The reads `chunks` of a new client handle the frames `fs`: they end in one way, the callbacks
return, all bytes are consumed and nothing of a request is left, every frame has had its effect, and
the frames executed or forwarded are the frames of the list in their order. -/
def HandlesFrames (fs chunks : List (List UInt8)) (c : Ctx) : Prop :=
  ∃ m, (∀ m', ReadAll m57Server chunks (.fresh c) m' ↔ m' = m) ∧
    m.pc = .ret ∧ m.cl.us = [] ∧ m.cl.IsIdle ∧ m.cl.conn.proto = runFrames fs c ∧
    m.cl.conn.proto.host.eventsOf .frame = c.host.eventsOf .frame ++ fs.map frameEvent

theorem handlesFrames_iff_live {fs chunks : List (List UInt8)} (hfs : ∀ f ∈ fs, IsFrame f)
    (hsplit : chunks.flatten = fs.flatten) (hlive : c.host.exited = false) :
    HandlesFrames fs chunks c ↔ (runFrames fs c).host.exited = false := by
  obtain ⟨m, hread, hproto, hend⟩ := readAll_frames fs hfs chunks hsplit c hlive
  constructor
  · rintro ⟨m', hread', hpc, -⟩
    obtain rfl : m' = m := (hread m').mp ((hread' m').mpr rfl)
    rcases hend with ⟨-, halive, -⟩ | ⟨hexit, -⟩
    · exact halive
    · exact Pc.noConfusion (hpc.symm.trans hexit)
  · intro halive
    rcases hend with ⟨hpc, -, hus, hidle, hevents⟩ | ⟨-, hexit, -⟩
    · exact ⟨m, hread, hpc, hus, hidle, hproto, hevents⟩
    · exact Bool.noConfusion (halive.symm.trans hexit)

/-- **All frames are handled, however they are read, exactly when none of them ends the process.**
The bytes of a list of well-formed frames are cut into reads in any way. -/
theorem handlesFrames_iff {fs chunks : List (List UInt8)} (hfs : ∀ f ∈ fs, IsFrame f)
    (hsplit : chunks.flatten = fs.flatten) (hlive : c.host.exited = false) :
    HandlesFrames fs chunks c ↔ AllSurvived fs c :=
  (handlesFrames_iff_live hfs hsplit hlive).trans (exited_runFrames_iff fs hlive)

/-- A heartbeat, a data frame and a read of the key tool, in three reads that cut the header of
the first, the second and the body of the last. -/
theorem handlesFrames_heartbeat_data_keytool :
    HandlesFrames
      [[0x51, 0x57, 0, 2, 16, 0, 0, 0, 0, 0, 8, 0, 0, 0, 0, 0], [0x51, 0x57, 0, 0, 9, 0, 0, 0, 7],
        [0x51, 0x57, 0, 0x10, 26, 0, 0, 0, 0, 2, 0, 0, 1, 0, 10, 0, 2, 1, 1, 0, 7, 0, 0, 0, 0, 0]]
      [[0x51, 0x57, 0, 2, 16],
        [0, 0, 0, 0, 0, 8, 0, 0, 0, 0, 0, 0x51, 0x57, 0, 0, 9, 0],
        [0, 0, 7, 0x51, 0x57, 0, 0x10, 26, 0, 0, 0, 0, 2, 0, 0, 1, 0, 10, 0, 2, 1, 1, 0, 7, 0, 0,
          0, 0, 0]]
      (.start .reliable fun _ => false) := by
  have hlive : (Ctx.start .reliable fun _ => false).host.exited = false := rfl
  exact (handlesFrames_iff (by decide) (by decide) hlive).mpr (by decide)

/-- A LOAD of a file without bytes for the chip `0x0502`, the one FILE_TRANSFER of its transfer,
which has no bytes either, and a heartbeat. -/
def emptyLoad : List (List UInt8) :=
  [[0x51, 0x57, 0, 2, 26, 0, 0, 0, 5, 0, 10, 0, 0, 0, 0, 0, 2, 5, 0, 0, 0, 0, 0, 0, 0, 0],
    [0x51, 0x57, 0, 2, 20, 0, 0, 0, 9, 0, 4, 0, 0, 0, 0, 0, 2, 5, 255, 255],
    [0x51, 0x57, 0, 2, 16, 0, 0, 0, 0, 0, 8, 0, 0, 0, 0, 0]]

/-- The load of an empty file ends the process, however the frames are read, and the heartbeat
behind it is not executed. -/
theorem not_handlesFrames_emptyLoad :
    (∀ f ∈ emptyLoad, IsFrame f) ∧
      (∀ chunks, chunks.flatten = emptyLoad.flatten →
        ¬ HandlesFrames emptyLoad chunks (.start .reliable fun i => i == 5)) ∧
      (runFrames emptyLoad (.start .reliable fun i => i == 5)).host.eventsOf .frame =
        [.execute [5, 0, 10, 0, 0, 0, 0, 0, 2, 5, 0, 0, 0, 0, 0, 0, 0, 0],
          .execute [9, 0, 4, 0, 0, 0, 0, 0, 2, 5, 255, 255]] := by
  refine ⟨by decide, fun chunks hsplit hhandles => ?_, by decide⟩
  have halive := (handlesFrames_iff_live (by decide) hsplit rfl).mp hhandles
  exact absurd halive (by decide)

end M57Card.M57
