import M57Card.Answer.Replies
import M57Card.Load.Complete

/-!
# One response for each request

LIST_INFO, READ_BOARD_INFO and UNLOAD call for a response, and so do reads of the key tool, rejected
LOAD commands and the FILE_TRANSFER commands behind which no transfer is running. The code gives
each of them exactly one frame with its code, and no frame to any other input, in the runs whose
inputs meet `AnswerOk`. Left out are the UNLOAD of a valid chip id, whose branch does not set the
response code; a load whose file cannot be opened, which is answered by `_m57_load_bit_over` and
again through the code, or whose file is empty, which ends the process; an answer while the flag
of the key tool is set; and a read of the key tool that comes as a command frame.

## Main definitions

* `Reply`, `callsFor` : the response that an input calls for.
* `AnsweredOnce` : an input gets the response that it calls for, and nothing else.
* `AnswerOk` : the condition under which it does.
* `FileInv` : descriptor, path and temporary file of the section belong together.

## Main results

* `run_answered` : in a run every input is answered as it calls for.
-/

namespace M57Card.M57

open Net Bytes

/-- The responses of the protocol: the data frame of the key tool, or a command frame with a
code. -/
inductive Reply where
  | keytool
  | code (n : ℕ)

/-- A frame is the response `r`. -/
def Reply.IsFrame (r : Reply) (f : RespFrame) : Prop :=
  match r with
  | .keytool => IsKeytoolReply f
  | .code n => IsReply n f

/-- The response that the input `i` calls for in the context `c`. A session ends with a
FILE_TRANSFER behind which no transfer is running. -/
def callsFor (c : Ctx) (i : Input) : Option Reply :=
  match i with
  | .keyRead _ => some .keytool
  | .keyWrite _ | .data _ => none
  | .cmd body =>
      match cardCmd (u16 body 0) with
      | .listInfo => some (.code 0x17)
      | .readBoardInfo => some (.code 0x13)
      | .unload => some (.code 0x08)
      | .load => if ioXdmaIsValidChipid c.host (u16 body 8) then none else some (.code 0x06)
      | .fileTransfer =>
          if (command body c).sect.isRunLoadfile then none else some (.code 0x06)
      | _ => none

/-- The input `i` gets the response that it calls for, and nothing else. -/
def AnsweredOnce (c : Ctx) (i : Input) : Prop :=
  match callsFor c i with
  | none => (i.effect c).host.eventsOf .send = c.host.eventsOf .send
  | some r => ∃ f, r.IsFrame f ∧
      (i.effect c).host.eventsOf .send = c.host.eventsOf .send ++ [.send c.me f]

/-- In every run of inputs of the client `c₀`, every input is answered as it calls for. -/
def AllAnswered (ok : Ctx → Input → Prop) (c₀ : Ctx) : Prop :=
  ∀ is c i, InputRun ok c₀ is c → c.host.exited = false → ok c i → AnsweredOnce c i

/-- The bytes that `write` stores of the chunk of a FILE_TRANSFER. -/
def storedBytes (c : Ctx) (body : List UInt8) : List UInt8 :=
  match c.host.env.writeStored (c.host.now + 1) (chunkPayload body).length with
  | none => []
  | some k => (chunkPayload body).take k

/-- The file that a FILE_TRANSFER loads can be opened and is not empty. -/
def Loadable (c : Ctx) (body : List UInt8) : Prop :=
  c.host.env.loadOpenFails (c.host.now + if c.sect.isRunLoadfile then 2 else 1) = false ∧
    (c.host.files.content c.sect.file.path ≠ some [] ∨
      c.sect.isRunLoadfile = true ∧ storedBytes c body ≠ [])

/-- The inputs that the code answers as it should. -/
def AnswerOk (c : Ctx) (i : Input) : Prop :=
  match i with
  | .cmd body =>
      (c.sect.isKeytoolCmd = true → answered c body = false) ∧
      (match cardCmd (u16 body 0) with
        | .keyReadE2prom => False
        | .unload => ioXdmaIsValidChipid c.host (u16 body 8) = false
        | .fileTransfer => StartsLoad c body → Loadable c body
        | _ => True)
  | _ => True

variable {c c' : Ctx}

/-! ### The temporary file -/

/-- An open descriptor of the section refers to the path of the section, which is a temporary
file, and a file that was received is there. -/
structure FileInv (c : Ctx) : Prop where
  descr : HasOpenFile c → ∃ offset data,
    c.host.files.descr c.sect.file.fd = some (.file c.sect.file.path offset) ∧
      c.host.files.content c.sect.file.path = some data
  path : 0 < c.sect.file.fd → ∃ chip, c.sect.file.path = tmpPath chip
  present : c.sect.isRunLoadfile = false → c.sect.isLoadfileOk = true →
    0 < c.sect.file.fd ∧ (c.host.files.content c.sect.file.path).isSome

theorem FileInv.keeps (h : FileInv c) (hkeeps : Keeps c c') : FileInv c' := by
  have hcontent (hfd : 0 < c.sect.file.fd) : c'.host.files.content c.sect.file.path =
      c.host.files.content c.sect.file.path := by
    obtain ⟨chip, hpath⟩ := h.path hfd
    rw [hpath, hkeeps.content]
  refine ⟨fun hopen => ?_, fun hfd => ?_, fun hrun hok => ?_⟩
  · rw [hasOpenFile_of_keeps hkeeps] at hopen
    rw [hkeeps.file, hkeeps.descr, hcontent hopen.1]
    exact h.descr hopen
  · rw [hkeeps.file] at hfd ⊢
    exact h.path hfd
  · rw [hkeeps.isRunLoadfile] at hrun
    rw [hkeeps.isLoadfileOk] at hok
    obtain ⟨hfd, hsome⟩ := h.present hrun hok
    rw [hkeeps.file, hcontent hfd]
    exact ⟨hfd, hsome⟩

theorem fileInv_of_transferring {chip len k : ℕ} {data : List UInt8}
    (h : Transferring c chip len k data) : FileInv c where
  descr _ := ⟨data.length, data, by rw [h.path]; exact ⟨h.descr, h.content⟩⟩
  path _ := ⟨chip, h.path⟩
  present hrun := Bool.noConfusion (h.isRunLoadfile.symm.trans hrun)

/-- The context in which a chunk has been received and its transfer is closed. -/
theorem fileInv_closeTransfer (fileOk : Bool) (c₁ : Ctx)
    (hpath : 0 < c₁.sect.file.fd → ∃ chip, c₁.sect.file.path = tmpPath chip)
    (hcontent : fileOk = true → 0 < c₁.sect.file.fd ∧
      (c₁.host.files.content c₁.sect.file.path).isSome) : FileInv (closeTransfer fileOk c₁) := by
  have hsame := sameCard_closeTransfer fileOk c₁
  obtain ⟨-, hok, hfiles⟩ := closeTransfer_flags fileOk c₁
  refine ⟨fun hopen => absurd hopen (not_hasOpenFile_closeTransfer fileOk c₁), ?_, fun _ hset => ?_⟩
  · rw [hsame.fd, hsame.path]
    exact hpath
  · rw [hsame.fd, hsame.path, hfiles]
    exact hcontent (hok.symm.trans hset)

section Chunk

variable {body : List UInt8}

/-- The file after a chunk has been stored. -/
theorem FileInv.storeChunk {k : ℕ} {files : FileTable Path} (h : FileInv c) (hopen : HasOpenFile c)
    (hwrite : c.host.files.write c.sect.file.fd ((chunkPayload body).take k) = some files) :
    ∃ offset data, c.host.files.content c.sect.file.path = some data ∧
      files.descr c.sect.file.fd = some (.file c.sect.file.path
        (offset + ((chunkPayload body).take k).length)) ∧
      files.content c.sect.file.path =
        some (FileTable.overlay data offset ((chunkPayload body).take k)) := by
  obtain ⟨offset, data, hdescr, hcontent⟩ := h.descr hopen
  obtain ⟨hdescr', hcontent'⟩ := FileTable.write_file hdescr hwrite
  rw [hcontent, Option.getD_some] at hcontent'
  exact ⟨offset, data, hcontent, hdescr', hcontent'⟩

theorem FileInv.receivedChunk (h : FileInv c) : FileInv (received body c) := by
  have hemit := h.keeps (.emit (.execute body) c)
  rw [received]
  split_ifs with hstop
  · exact hemit
  by_cases hacc : AcceptsChunk (c.emit (.execute body)) body
  · by_cases hstores : StoresChunk (c.emit (.execute body)) body
    · obtain ⟨k, files, -, hwrite, hrecv⟩ := receiveChunk_of_stored hacc hstores
      obtain ⟨offset, data, -, hdescr, hcontent⟩ := hemit.storeChunk hstores.1 hwrite
      rw [hrecv]
      split_ifs
      · refine fileInv_closeTransfer true _ ?_ fun _ => ⟨hstores.1.1, ?_⟩
        · exact h.path
        · exact Option.isSome_iff_exists.mpr ⟨_, hcontent⟩
      · refine fileInv_closeTransfer false _ ?_ fun hok => Bool.noConfusion hok
        exact h.path
      · exact ⟨fun _ => ⟨_, _, hdescr, hcontent⟩, h.path, fun hrun => absurd hrun hstop⟩
    · rw [receiveChunk_of_not_stored hacc hstores]
      refine fileInv_closeTransfer false _ ?_ fun hok => Bool.noConfusion hok
      exact h.path
  · obtain ⟨hhost, -, hok⟩ := receiveChunk_rejected body.length hacc
    have hsame := sameCard_receiveChunk body.length body (c.emit (.execute body))
    refine ⟨?_, ?_, fun _ hset => Bool.noConfusion (hok.symm.trans hset)⟩
    · rw [HasOpenFile, hhost, hsame.fd, hsame.path]
      exact hemit.descr
    · rw [hsame.fd, hsame.path]
      exact h.path

/-- The file that is loaded, in the context in which it is. -/
theorem FileInv.loadable (h : FileInv c) (hstarts : StartsLoad c body) (hload : Loadable c body) :
    ∃ b bs, (received body c).host.files.content (received body c).sect.file.path = some (b :: bs) ∧
      (received body c).host.env.loadOpenFails (received body c).host.now = false := by
  obtain ⟨hopens, hnonempty⟩ := hload
  have hsame := sameCard_received body c
  suffices hfile : ∃ file, (received body c).host.files.content c.sect.file.path = some file ∧
      file ≠ [] ∧ (received body c).host.now = c.host.now + if c.sect.isRunLoadfile then 2 else 1 by
    obtain ⟨file, hcontent, hne, hnow⟩ := hfile
    obtain ⟨b, bs, rfl⟩ := List.exists_cons_of_ne_nil hne
    exact ⟨b, bs, by rw [hsame.path, hcontent], by rw [hsame.env, hnow, hopens]⟩
  by_cases hrun : c.sect.isRunLoadfile = true
  · obtain ⟨-, hcond⟩ := hstarts
    rw [if_pos hrun] at hcond
    obtain ⟨hacc, hstores, hends⟩ := hcond
    obtain ⟨k, files, hk, hwrite, hrecv⟩ :=
      receiveChunk_of_stored (c := c.emit (.execute body)) hacc hstores
    obtain ⟨offset, data, hdata, -, hcontent⟩ :=
      (h.keeps (.emit (.execute body) c)).storeChunk hstores.1 hwrite
    have hnow : (c.emit (.execute body)).host.now = c.host.now + 1 := now_emit _ c.host
    have hstored : storedBytes c body = (chunkPayload body).take k := by
      rw [hnow] at hk
      simp only [storedBytes]
      rw [show c.host.env = (c.emit (.execute body)).host.env from rfl, hk]
    have hends' : EndsTransfer (c.emit (.execute body)) body := hends
    rw [received_of_running hrun, hrecv, if_pos hends', hrun]
    refine ⟨_, by rw [(closeTransfer_flags true _).2.2]; exact hcontent, ?_, ?_⟩
    · refine FileTable.overlay_ne_nil (hnonempty.imp (fun hne hnil => ?_) fun hne => ?_)
      · exact hne (hnil ▸ hdata)
      · exact hstored ▸ hne.2
    · rw [Host.now, closeTransfer_trace]
      change ((c.emit (.execute body)).host.trace ++ [_]).length = _
      rw [List.length_append]
      exact congrArg (· + 1) hnow
  · have hstop : c.sect.isRunLoadfile = false := Bool.eq_false_iff.mpr hrun
    obtain ⟨-, hcond⟩ := hstarts
    rw [if_neg hrun] at hcond
    obtain ⟨-, hsome⟩ := h.present hstop hcond
    obtain ⟨file, hfile⟩ := Option.isSome_iff_exists.mp hsome
    rw [received, if_pos hstop, hstop]
    refine ⟨file, hfile, ?_, List.length_append⟩
    rintro rfl
    exact (hnonempty.resolve_right fun hr => hrun hr.1) hfile

end Chunk

/-- The invariant is kept by every input that leaves the process alive. -/
theorem FileInv.effect {i : Input} (h : FileInv c) (hlive : c.host.exited = false)
    (hlive' : (i.effect c).host.exited = false) : FileInv (i.effect c) := by
  rcases hload : i.ofCmd .load with _ | body
  · rcases htrans : i.ofCmd .fileTransfer with _ | body
    · exact h.keeps (Input.keeps_effect hload htrans c)
    · obtain ⟨rfl, hcmd⟩ := Input.ofCmd_eq_some_iff.mp htrans
      exact h.receivedChunk.keeps (command_fileTransfer hcmd c).1
  · obtain ⟨rfl, hcmd⟩ := Input.ofCmd_eq_some_iff.mp hload
    cases hv : ioXdmaIsValidChipid c.host (u16 body 8) with
    | false =>
      have hsection : FileInv ((c.emit (.execute body)).onSect (loadSection body)) :=
        ⟨h.descr, h.path, nofun⟩
      exact hsection.keeps (keeps_command_rejected hcmd hv)
    | true =>
      rcases command_load_accepted hcmd hlive hv with hexit | ⟨htrans, -⟩
      · exact Bool.noConfusion (hlive'.symm.trans hexit)
      · exact fileInv_of_transferring htrans

theorem fileInv_of_run {ok : Ctx → Input → Prop} {c₀ : Ctx} {is : List Input}
    (hfresh : c₀.sect = {}) (hrun : InputRun ok c₀ is c) (hlive : c.host.exited = false) :
    FileInv c := by
  refine LabelRun.invariant (fun _ c => c.host.exited = false → FileInv c) ?_ ?_ hrun hlive
  · intro _
    have hfd : ¬ 0 < c₀.sect.file.fd := by rw [hfresh]; decide
    refine ⟨fun hopen => absurd hopen.1 hfd, fun hpos => absurd hpos hfd, fun _ hok => ?_⟩
    rw [hfresh] at hok
    exact Bool.noConfusion hok
  · intro _ c i _ hlive _ ih hlive'
    exact (ih hlive).effect hlive hlive'

/-! ### Answers -/

/-- A file that can be opened and is not empty is loaded. -/
theorem loading_of_content (client : ℕ) {path : Path} {h : Host} {b : UInt8} {bs : List UInt8}
    (hcontent : h.files.content path = some (b :: bs))
    (hopens : h.env.loadOpenFails h.now = false) (hlive : h.exited = false) :
    (m57LoadingBitfileToFpga client path h).1 = true ∧
      (m57LoadingBitfileToFpga client path h).2.exited = false := by
  unfold m57LoadingBitfileToFpga
  simp only [hcontent, hopens, Bool.false_eq_true, if_false, reduceCtorEq]
  exact ⟨trivial, (emits_loadingLoop _ _ _ _ _).exited.trans hlive⟩

theorem fileTransferReplies_of_stop {body : List UInt8} (h : FileInv c)
    (hlive : c.host.exited = false) (hstop : (received body c).sect.isRunLoadfile = false)
    (hload : StartsLoad c body → Loadable c body) :
    fileTransferReplies (received body c) = 1 := by
  rw [fileTransferReplies, if_pos hstop]
  split_ifs with hstarts
  · have hstarts' : StartsLoad c body := (startsLoad_iff c body).mpr ⟨hstop, hstarts⟩
    obtain ⟨b, bs, hcontent, hopens⟩ := h.loadable hstarts' (hload hstarts')
    obtain ⟨hloaded, halive⟩ := loading_of_content (received body c).me hcontent hopens
      ((sameCard_received body c).exited.trans hlive)
    simp only [hloaded, halive, Bool.false_eq_true, if_false, if_true]
  · rfl

theorem answeredOnce_of_none {body : List UInt8} {code : ℕ}
    (h : Replies code 0 c (command body c)) (hcalls : callsFor c (.cmd body) = none) :
    AnsweredOnce c (.cmd body) := by
  obtain ⟨frames, hlen, hsends, -⟩ := h.sends
  rw [List.length_eq_zero_iff.mp hlen, List.map_nil, List.append_nil] at hsends
  simp only [AnsweredOnce, hcalls]
  exact hsends

theorem answeredOnce_of_one {body : List UInt8} {code : ℕ}
    (h : Replies code 1 c (command body c)) (hflag : c.sect.isKeytoolCmd = false)
    (hcalls : callsFor c (.cmd body) = some (.code code)) : AnsweredOnce c (.cmd body) := by
  obtain ⟨frames, hlen, hsends, hreply⟩ := h.sends
  obtain ⟨f, rfl⟩ := List.length_eq_one_iff.mp hlen
  simp only [AnsweredOnce, hcalls]
  exact ⟨f, hreply hflag f (List.mem_singleton_self f), hsends⟩

theorem answeredOnce_fileTransfer {body : List UInt8} (h : FileInv c)
    (hlive : c.host.exited = false) (hexit : c.sect.isExitting = false)
    (hcmd : cardCmd (u16 body 0) = .fileTransfer)
    (hflag : c.sect.isKeytoolCmd = true → answered c body = false)
    (hload : StartsLoad c body → Loadable c body) : AnsweredOnce c (.cmd body) := by
  have hreplies := replies_fileTransfer hcmd hexit hlive
  have hrun : (command body c).sect.isRunLoadfile = (received body c).sect.isRunLoadfile :=
    (command_fileTransfer hcmd c).1.isRunLoadfile
  cases hstop : (received body c).sect.isRunLoadfile with
  | true =>
    rw [fileTransferReplies, if_neg (by rw [hstop]; decide)] at hreplies
    exact answeredOnce_of_none hreplies (by simp only [callsFor, hcmd, hrun, hstop, if_true])
  | false =>
    rw [fileTransferReplies_of_stop h hlive hstop hload] at hreplies
    refine answeredOnce_of_one hreplies ?_ ?_
    · have hcont : ¬ Continues c body := fun hc => by
        rw [(received_flags body hc.1).1.mpr hc] at hstop
        exact Bool.noConfusion hstop
      by_contra hset
      have hnone := hflag (Bool.eq_true_of_not_eq_false hset)
      simp [answered, hcmd, hcont] at hnone
    · simp only [callsFor, hcmd, hrun, hstop, Bool.false_eq_true, if_false]

/-- Of the commands other than FILE_TRANSFER, the code answers those that call for it. -/
theorem callsFor_cmd {body : List UInt8} (htrans : cardCmd (u16 body 0) ≠ .fileTransfer)
    (hok : AnswerOk c (.cmd body)) :
    callsFor c (.cmd body) =
      if answered c body then some (.code (replyCode (cardCmd (u16 body 0)))) else none := by
  obtain ⟨-, hcond⟩ := hok
  cases hcmd : cardCmd (u16 body 0) with
  | fileTransfer => exact absurd hcmd htrans
  | keyReadE2prom => simp only [hcmd] at hcond
  | unload =>
    simp only [hcmd] at hcond
    simp only [callsFor, answered, hcmd, hcond]
    rfl
  | load =>
    simp only [callsFor, answered, hcmd]
    cases ioXdmaIsValidChipid c.host (u16 body 8) <;> rfl
  | keyWriteE2prom => simp only [callsFor, answered, hcmd, Bool.false_eq_true, if_false]
  | beatHart => simp only [callsFor, answered, hcmd, Bool.false_eq_true, if_false]
  | register => simp only [callsFor, answered, hcmd, Bool.false_eq_true, if_false]
  | dataSub => simp only [callsFor, answered, hcmd, Bool.false_eq_true, if_false]
  | dataUnsub => simp only [callsFor, answered, hcmd, Bool.false_eq_true, if_false]
  | listInfo => simp only [callsFor, answered, hcmd, if_true, replyCode]
  | readBoardInfo => simp only [callsFor, answered, hcmd, if_true, replyCode]
  | other => simp only [callsFor, answered, hcmd, Bool.false_eq_true, if_false]

theorem answeredOnce_cmd {body : List UInt8} (hlive : c.host.exited = false)
    (htrans : cardCmd (u16 body 0) ≠ .fileTransfer) (hok : AnswerOk c (.cmd body)) :
    AnsweredOnce c (.cmd body) := by
  have hkey : cardCmd (u16 body 0) ≠ .keyReadE2prom := by
    intro hcmd
    obtain ⟨-, hcond⟩ := hok
    simp only [hcmd] at hcond
  have hreplies := replies_command body c htrans hkey hlive
  have hcalls := callsFor_cmd htrans hok
  cases hans : answered c body with
  | false =>
    rw [hans, if_neg (by decide)] at hreplies hcalls
    exact answeredOnce_of_none hreplies hcalls
  | true =>
    rw [hans, if_pos rfl] at hreplies hcalls
    refine answeredOnce_of_one hreplies ?_ hcalls
    by_contra hset
    exact Bool.noConfusion (hans.symm.trans (hok.1 (Bool.eq_true_of_not_eq_false hset)))

theorem isExitting_of_inputRun {ok : Ctx → Input → Prop} {c₀ : Ctx} {is : List Input}
    (hrun : InputRun ok c₀ is c) : c.sect.isExitting = c₀.sect.isExitting := by
  refine LabelRun.invariant (fun _ c => c.sect.isExitting = c₀.sect.isExitting) rfl ?_ hrun
  intro _ c i _ _ _ ih
  exact (Input.effect_frame i c).2.2.trans ih

/-- **Every request gets exactly the response that it calls for**, in every run of a client whose
inputs meet `AnswerOk`. -/
theorem run_answered {c₀ : Ctx} (hfresh : c₀.sect = {}) : AllAnswered AnswerOk c₀ := by
  intro is c i hrun hlive hok
  have hexit : c.sect.isExitting = false := by rw [isExitting_of_inputRun hrun, hfresh]
  cases i with
  | keyRead rest => exact sends_keyRead rest hlive
  | keyWrite rest => exact sends_keyWrite rest hlive
  | data frame => exact sends_data frame c
  | cmd body =>
    by_cases htrans : cardCmd (u16 body 0) = .fileTransfer
    · obtain ⟨hflag, hcond⟩ := hok
      simp only [htrans] at hcond
      exact answeredOnce_fileTransfer (fileInv_of_run hfresh hrun hlive) hlive hexit htrans hflag
        hcond
    · exact answeredOnce_cmd hlive htrans hok

/-- The first FILE_TRANSFER of a client is refused with one response. -/
theorem run_answered_refused :
    AnsweredOnce (.start .reliable fun i => i == 5)
      (.cmd [9, 0, 8, 0, 0, 0, 0, 0, 2, 5, 0, 0, 0xaa]) :=
  @run_answered (.start .reliable fun i => i == 5) rfl [] _ _ .nil rfl
    ⟨nofun, fun hstarts => absurd hstarts (by decide)⟩

/-- Without the condition, the UNLOAD of a chip that is present is not answered. -/
theorem not_allAnswered_unload :
    ¬ AllAnswered (fun _ _ => True) (.start .reliable fun i => i == 5) := by
  intro h
  obtain ⟨f, -, hsends⟩ := h [] _ (.cmd [7, 0, 8, 0, 0, 0, 0, 0, 2, 5]) .nil rfl trivial
  have hnone : ((Input.cmd [7, 0, 8, 0, 0, 0, 0, 0, 2, 5]).effect
      (.start .reliable fun i => i == 5)).host.eventsOf .send = [] := by decide
  rw [hnone] at hsends
  exact absurd hsends (by simp)

end M57Card.M57
