import M57Card.Load.Writer

/-!
# The result of a load

When a file has been transferred, `m57_execute_cmd` lets a thread write it to the FPGA and calls
`_m57_load_bit_over`, which writes the stop command, reads the load register of the chip and
possibly the link register, and answers the client (`m57.c`, lines 464–530, 671–692 and 1342–1372).

Three failures do not reach the answer. `_m57_loading_bitfile_to_fpga` is a function of type `bool`
and returns `-1` when the thread cannot be created, which is true. The thread prints whether all
bytes were written, and its result is `0` either way. And when the stop command is not written
completely, the status keeps its first value `M57_CARD_STATUS_OK`.

## Main definitions

* `loadFileExitOn` : the end of FILE_TRANSFER, where the thread may not be created.
* `fpgaBytes` : the bytes that reach the FPGA.
* `loadReported`, `linkReported`, `Reported` : what the registers say.
* `LoadDone`, `TruthfulLoad` : a success is answered for a load that is done.
* `LoadPerformed`, `FileWritten` : the circumstances of a load.

## Main results

* `fpgaBytes_passedBlocks_eq_iff` : all bytes of the blocks are written exactly when each block is
  written completely.
* `loadBitVerdict_true_spec` : the verdict.
* `truthfulLoad_iff` : when the answer is truthful.
-/

namespace M57Card.M57

open Net Bytes

/-! ### The end of FILE_TRANSFER -/

/-- `_m57_loading_bitfile_to_fpga`, where `pthread_create` may fail. -/
def loadingBitfile (created : Bool) (client : ℕ) (path : Path) (h : Host) : Bool × Host :=
  if created then m57LoadingBitfileToFpga client path h else (true, h)

/-- FILE_TRANSFER from the label `load_file_exit` on, where the thread may not be created. -/
def loadFileExitOn (created : Bool) (cn : Conn Ctx) : Conn Ctx × ℤ :=
  let s := cn.proto.sect
  if s.isRunLoadfile = false then
    if s.isLoadfileOk ∧ ioXdmaIsValidChipid cn.proto.host s.chipId then
      let (ok, h) := loadingBitfile created cn.proto.me s.file.path cn.proto.host
      let cn := { cn with proto := { cn.proto with host := h } }
      if h.exited then (cn, -1)
      else if ok then (m57LoadBitOver true cn, -1)
      else loadFailed (m57LoadBitOver false cn)
    else
      loadFailed cn
  else
    let c := (cn.proto.emit (.loadbitResult (cardSlotNum s.chipId) DEVICE_STATUS_LOADING)).emit
      (.deviceStatus DEVICE_STATUS_LOADING s.chipId)
    ({ cn with proto := c }, -1)

theorem loadFileExitOn_true (cn : Conn Ctx) : loadFileExitOn true cn = loadFileExit cn := rfl

/-! ### What reaches the FPGA -/

/-- The bytes that the FPGA takes from a write. -/
def Event.taken (env : Env) (t : ℕ) : Event → List UInt8
  | .xdma data => data.take (env.writeXdmaData t data.length).toNat
  | _ => []

/-- The bytes that the FPGA takes in the events from the moment `t` on. -/
def fpgaBytes (env : Env) : ℕ → List Event → List UInt8
  | _, [] => []
  | t, e :: es => e.taken env t ++ fpgaBytes env (t + 1) es

/-- The stop command is written completely. -/
def StopWritten (env : Env) (t : ℕ) : Prop := env.writeXdmaData t 16 = 16

/-! ### What the registers say -/

/-- `_reg_get_load_result` reports success at the moment `t`. -/
def loadReported (env : Env) (t id : ℕ) : Bool :=
  match regChip id with
  | none => false
  | some chip => attempts.any fun k => (env.statusReg t k (regSlot id)).load chip == 1

/-- `_reg_get_link_result` reports success at the moment `t`. -/
def linkReported (env : Env) (t id : ℕ) : Bool :=
  match regChip id with
  | none => false
  | some _ => attempts.any fun k => (env.statusReg t k (regSlot id)).linkStatus == 1

/-- The link of a chip is looked at: the switch of the slot is on, and the chip has number 2. -/
def LinkRequired (env : Env) (id : ℕ) : Prop :=
  env.linkSwitch (cardSlotNum id) = true ∧ cardChipNum id = 2

/-- The registers report success: the load register at the moment `t`, and then the link register,
where the link is looked at. -/
structure Reported (env : Env) (t id : ℕ) : Prop where
  load : loadReported env t id = true
  link : LinkRequired env id → linkReported env (t + 1) id = true

/-! ### The load -/

section Load

variable (created : Bool) (c : Ctx)

/-- The file that a section loads. -/
def sectionFile : List UInt8 := (c.host.files.content c.sect.file.path).getD []

/-- The host after the file, before the stop command. -/
def fileHost : Host := (loadingBitfile created c.me c.sect.file.path c.host).2

/-- The events of a load that is performed, before the stop command. -/
def loadEvents : List Event :=
  if created then
    .loadStart c.me c.sect.file.path (sectionFile c) ::
      blockWrites (passedBlocks c.host.env (c.host.now + 1) (blocks 4096 (sectionFile c)))
  else
    []

/-- The moment of the stop command. -/
def stopMoment : ℕ := c.host.now + (loadEvents created c).length

/-- A load is performed: the transfer is over and all right, the card is present, the client is not
being closed, and the thread, when it is created, opens the file and gets past its division. -/
structure LoadPerformed : Prop where
  isRunLoadfile : c.sect.isRunLoadfile = false
  isLoadfileOk : c.sect.isLoadfileOk = true
  present : ioXdmaIsValidChipid c.host c.sect.chipId = true
  live : c.host.exited = false
  isExitting : c.sect.isExitting = false
  opens : created = true → sectionFile c ≠ [] ∧ c.host.env.loadOpenFails c.host.now = false

/-- The file is there and written completely, which without a thread it is when it is empty. -/
def FileWritten : Prop :=
  ∃ file, c.host.files.content c.sect.file.path = some file ∧
    if created then WrittenWhole c.host.env (c.host.now + 1) (blocks 4096 file) else file = []

end Load

/-- The payload of an answer to a load. -/
def loadPayload (chip : ℕ) (ret : ℤ) : List UInt8 := le16 chip ++ le32 (ret % 2 ^ 32).toNat

section Truth

variable (created : Bool) (cn : Conn Ctx)

/-- The client is answered `CCT_RSP_LOAD` with `M57_CARD_STATUS_OK`, by a frame or through the code.
-/
def AnsweredOk : Prop :=
  (∃ isKeytool prio sn, .send cn.proto.me (respFrame isKeytool prio sn CCT_RSP_LOAD.toNat
      (loadPayload cn.proto.sect.chipId M57_CARD_STATUS_OK)) ∈
    newEvents cn.proto.host (loadFileExitOn created cn).1.proto.host) ∨
  (loadFileExitOn created cn).2 = CCT_RSP_LOAD ∧
    (loadFileExitOn created cn).1.response.data =
      loadPayload cn.proto.sect.chipId M57_CARD_STATUS_OK

/-- The slot is set to `DEVICE_STATUS_LOAD_OK`. -/
def SlotLoadOk : Prop :=
  .loadbitResult (cardSlotNum cn.proto.sect.chipId) DEVICE_STATUS_LOAD_OK ∈
    newEvents cn.proto.host (loadFileExitOn created cn).1.proto.host

/-- The load is done: the FPGA took the file, filled to a multiple of four bytes, and the stop
command, and then the registers reported success. -/
structure LoadDone : Prop where
  written : ∃ file, cn.proto.host.files.content cn.proto.sect.file.path = some file ∧
    fpgaBytes cn.proto.host.env cn.proto.host.now
        (newEvents cn.proto.host (loadFileExitOn created cn).1.proto.host) =
      padded file ++ m57AssambleLoadfileCmd cn.proto.sect.chipId 0x01
  reported : Reported cn.proto.host.env (stopMoment created cn.proto + 1) cn.proto.sect.chipId

/-- A success is answered, and the slot is set, only for a load that is done. -/
structure TruthfulLoad : Prop where
  answer : AnsweredOk created cn → LoadDone created cn
  slot : SlotLoadOk created cn → LoadDone created cn

end Truth

/-! ### The bytes of events -/

theorem taken_of_kind {e : Event} (he : e.kind ≠ .xdma) (env : Env) (t : ℕ) :
    e.taken env t = [] := by
  cases e with
  | xdma data => exact absurd rfl he
  | _ => rfl

theorem fpgaBytes_append (env : Env) (t : ℕ) (es es' : List Event) :
    fpgaBytes env t (es ++ es') = fpgaBytes env t es ++ fpgaBytes env (t + es.length) es' := by
  induction es generalizing t with
  | nil => rfl
  | cons e es ih =>
    have hmoment : t + 1 + es.length = t + (e :: es).length := by
      rw [List.length_cons]
      omega
    rw [List.cons_append, fpgaBytes, fpgaBytes, ih, List.append_assoc, hmoment]

theorem fpgaBytes_of_kind {es : List Event} (hes : ∀ e ∈ es, e.kind ≠ .xdma) (env : Env) (t : ℕ) :
    fpgaBytes env t es = [] := by
  induction es generalizing t with
  | nil => rfl
  | cons e es ih =>
    obtain ⟨he, hes⟩ := List.forall_mem_cons.mp hes
    rw [fpgaBytes, taken_of_kind he, ih hes]
    rfl

section Blocks

variable {env : Env}

/-- Of the blocks of a file not more than all bytes are written, and all of them exactly when each
block is written completely: a block that is not ends the loop, or has bytes left out. -/
theorem length_fpgaBytes_passedBlocks (hle : ∀ t n, env.writeXdmaData t n ≤ n) (t : ℕ)
    {bs : List (List UInt8)} (hbs : ∀ b ∈ bs, b ≠ []) :
    (fpgaBytes env t (blockWrites (passedBlocks env t bs))).length ≤
        (bs.map padded).flatten.length ∧
      ((fpgaBytes env t (blockWrites (passedBlocks env t bs))).length =
          (bs.map padded).flatten.length → WrittenWhole env t bs) := by
  induction bs generalizing t with
  | nil => exact ⟨le_refl _, fun _ => trivial⟩
  | cons b bs ih =>
    obtain ⟨hb, hbs⟩ := List.forall_mem_cons.mp hbs
    obtain ⟨hlen, hwhole⟩ := ih (t + 1) hbs
    have hpos := List.length_pos_iff.mpr (padded_ne_nil hb)
    have htaken := hle t (padded b).length
    rw [List.map_cons, List.flatten_cons, List.length_append, passedBlocks, WrittenWhole]
    split_ifs with hrefused
    · have hnone : fpgaBytes env t (blockWrites [b]) = [] := by
        have hzero : (env.writeXdmaData t (padded b).length).toNat = 0 := by omega
        exact (congrArg (fun n => (padded b).take n ++ []) hzero).trans rfl
      rw [hnone]
      exact ⟨Nat.zero_le _, fun heq => absurd heq (by rw [List.length_nil]; omega)⟩
    · have hsplit : fpgaBytes env t (blockWrites (b :: passedBlocks env (t + 1) bs)) =
          (padded b).take (env.writeXdmaData t (padded b).length).toNat ++
            fpgaBytes env (t + 1) (blockWrites (passedBlocks env (t + 1) bs)) := rfl
      rw [hsplit, List.length_append, List.length_take]
      refine ⟨by omega, fun heq => ⟨by omega, hwhole (by omega)⟩⟩

theorem fpgaBytes_of_whole (t : ℕ) {bs : List (List UInt8)} (hwhole : WrittenWhole env t bs) :
    fpgaBytes env t (blockWrites bs) = (bs.map padded).flatten := by
  induction bs generalizing t with
  | nil => rfl
  | cons b bs ih =>
    obtain ⟨hfirst, hthen⟩ := hwhole
    have hsplit : fpgaBytes env t (blockWrites (b :: bs)) =
        (padded b).take (env.writeXdmaData t (padded b).length).toNat ++
          fpgaBytes env (t + 1) (blockWrites bs) := rfl
    rw [hsplit, ih (t + 1) hthen, hfirst, Int.toNat_natCast, List.take_length]
    rfl

end Blocks

/-! ### The verdict -/

section Verdict

variable {chip : ℕ} {h : Host}

theorem length_m57AssambleLoadfileCmd (chip cmd : ℕ) :
    (m57AssambleLoadfileCmd chip cmd).length = 16 := rfl

theorem m57StopLoadBitfileToFpga_eq (chip : ℕ) (h : Host) :
    m57StopLoadBitfileToFpga chip h =
      (decide (h.env.writeXdmaData h.now 16 = 16), h.emit (stopWrite chip)) := by
  have hne : m57AssambleLoadfileCmd chip 0x01 ≠ [] := List.cons_ne_nil _ _
  rw [m57StopLoadBitfileToFpga, writeXdmaData_of_ne_nil hne, length_m57AssambleLoadfileCmd]
  rfl

theorem regGetLoadResult_fst (id : ℕ) (h : Host) :
    (regGetLoadResult id h).1 = loadReported h.env h.now id := by
  unfold regGetLoadResult loadReported
  cases regChip id <;> rfl

theorem regGetLinkResult_fst (id : ℕ) (h : Host) :
    (regGetLinkResult id h).1 = linkReported h.env h.now id := by
  unfold regGetLinkResult linkReported
  cases regChip id <;> rfl

/-- A load register that reports success has been read. -/
theorem regGetLoadResult_of_reported (hload : loadReported h.env h.now chip = true) :
    regGetLoadResult chip h = (true, h.emit (.readReg (regSlot chip))) := by
  have hfst := regGetLoadResult_fst chip h
  rw [hload] at hfst
  refine Prod.ext hfst ?_
  rw [loadReported] at hload
  rw [regGetLoadResult]
  cases hchip : regChip chip with
  | none =>
    rw [hchip] at hload
    exact absurd hload Bool.false_ne_true
  | some k => rfl

theorem grows_regGetLoadResult {P : Event → Prop} {id : ℕ} (hP : P (.readReg (regSlot id)))
    (h : Host) : Grows P h (regGetLoadResult id h).2 := by
  unfold regGetLoadResult
  cases regChip id with
  | none => exact .refl h
  | some k => exact .emit hP h

theorem grows_regGetLinkResult {P : Event → Prop} {id : ℕ} (hP : P (.readReg (regSlot id)))
    (h : Host) : Grows P h (regGetLinkResult id h).2 := by
  unfold regGetLinkResult
  cases regChip id with
  | none => exact .refl h
  | some k => exact .emit hP h

/-- A stop command that is not written completely leaves the status as it was. -/
theorem loadBitVerdict_of_not_stopWritten (hstop : ¬ StopWritten h.env h.now) :
    loadBitVerdict true chip h = (M57_CARD_STATUS_OK, h.emit (stopWrite chip)) := by
  have hfalse : decide (h.env.writeXdmaData h.now 16 = 16) = false := decide_eq_false hstop
  rw [loadBitVerdict, if_neg Bool.false_ne_true.symm, m57StopLoadBitfileToFpga_eq, hfalse]
  rfl

/-- After a stop command that is written completely the load register is read. -/
theorem loadBitVerdict_of_not_load (hstop : StopWritten h.env h.now)
    (hload : loadReported h.env (h.now + 1) chip = false) :
    loadBitVerdict true chip h =
      (M57_CARD_STATUS_LOAD_FAILD,
        ((regGetLoadResult chip (h.emit (stopWrite chip))).2.emit
          (.loadbitResult (cardSlotNum chip) DEVICE_STATUS_LOAD_ERR)).emit
            (.deviceStatus DEVICE_STATUS_LOAD_ERR chip)) := by
  have htrue : decide (h.env.writeXdmaData h.now 16 = 16) = true := decide_eq_true hstop
  have hfst := regGetLoadResult_fst chip (h.emit (stopWrite chip))
  rw [now_emit] at hfst
  rw [loadBitVerdict, if_neg Bool.false_ne_true.symm, m57StopLoadBitfileToFpga_eq, htrue]
  exact if_pos (hfst.trans hload)

/-- The end of the verdict: a status that is a success so far sets the slot. -/
def loadVerdictEnd (chip : ℕ) (r : ℤ × Host) : ℤ × Host :=
  if r.1 = M57_CARD_STATUS_OK then
    (r.1, (r.2.emit (.loadbitResult (cardSlotNum chip) DEVICE_STATUS_LOAD_OK)).emit
      (.deviceStatus DEVICE_STATUS_LOAD_OK chip))
  else r

theorem loadVerdictEnd_of_ne {ret : ℤ} (hret : ret ≠ M57_CARD_STATUS_OK) (h : Host) :
    loadVerdictEnd chip (ret, h) = (ret, h) := if_neg hret

/-- After a load that is reported the link register is read, where it is looked at. -/
theorem loadBitVerdict_of_load (hstop : StopWritten h.env h.now)
    (hload : loadReported h.env (h.now + 1) chip = true) :
    loadBitVerdict true chip h = loadVerdictEnd chip
      (if h.env.linkSwitch (cardSlotNum chip) = true ∧ cardChipNum chip = 2 then
        linkVerdict chip ((h.emit (stopWrite chip)).emit (.readReg (regSlot chip)))
      else (M57_CARD_STATUS_OK, (h.emit (stopWrite chip)).emit (.readReg (regSlot chip)))) := by
  have htrue : decide (h.env.writeXdmaData h.now 16 = 16) = true := decide_eq_true hstop
  have hread : regGetLoadResult chip (h.emit (stopWrite chip)) =
      (true, (h.emit (stopWrite chip)).emit (.readReg (regSlot chip))) := by
    refine regGetLoadResult_of_reported ?_
    rw [now_emit]
    exact hload
  rw [loadBitVerdict, if_neg Bool.false_ne_true.symm, m57StopLoadBitfileToFpga_eq, htrue]
  dsimp only
  rw [if_neg Bool.false_ne_true.symm, hread]
  rfl

theorem regGetLinkResult_after_stop (chip : ℕ) (h : Host) :
    (regGetLinkResult chip ((h.emit (stopWrite chip)).emit (.readReg (regSlot chip)))).1 =
      linkReported h.env (h.now + 2) chip := by
  rw [regGetLinkResult_fst, now_emit, now_emit]
  rfl

/-- A success of the registers sets the slot. -/
theorem loadBitVerdict_of_reported (hstop : StopWritten h.env h.now)
    (hrep : Reported h.env (h.now + 1) chip) :
    ∃ h', Grows (fun _ => True) (h.emit (stopWrite chip)) h' ∧ loadBitVerdict true chip h =
      (M57_CARD_STATUS_OK, (h'.emit (.loadbitResult (cardSlotNum chip) DEVICE_STATUS_LOAD_OK)).emit
        (.deviceStatus DEVICE_STATUS_LOAD_OK chip)) := by
  rw [loadBitVerdict_of_load hstop hrep.load]
  by_cases hreq : h.env.linkSwitch (cardSlotNum chip) = true ∧ cardChipNum chip = 2
  · have hlinked := (regGetLinkResult_after_stop chip h).trans (hrep.link hreq)
    rw [if_pos hreq, linkVerdict]
    dsimp only
    rw [if_pos hlinked]
    refine ⟨_, ?_, if_pos rfl⟩
    exact .trans (.emit trivial _) (.trans (grows_regGetLinkResult trivial _) (.emit trivial _))
  · rw [if_neg hreq]
    exact ⟨_, .emit trivial _, if_pos rfl⟩

/-- An event that does not set the slot of a chip to `DEVICE_STATUS_LOAD_OK`. -/
def SetsNoLoadOk (chip : ℕ) (e : Event) : Prop :=
  e ≠ .loadbitResult (cardSlotNum chip) DEVICE_STATUS_LOAD_OK

/-- Without it neither the status nor the slot is a success. -/
theorem loadBitVerdict_of_not_reported (hstop : StopWritten h.env h.now)
    (hrep : ¬ Reported h.env (h.now + 1) chip) :
    (loadBitVerdict true chip h).1 ∈ [M57_CARD_STATUS_LOAD_FAILD, M57_CARD_STATUS_LINK_FAILD] ∧
      Grows (SetsNoLoadOk chip) (h.emit (stopWrite chip)) (loadBitVerdict true chip h).2 := by
  have hread : SetsNoLoadOk chip (.readReg (regSlot chip)) := Event.noConfusion
  have hdevice (status : ℤ) : SetsNoLoadOk chip (.deviceStatus status chip) := Event.noConfusion
  cases hload : loadReported h.env (h.now + 1) chip with
  | false =>
    have herr : SetsNoLoadOk chip (.loadbitResult (cardSlotNum chip) DEVICE_STATUS_LOAD_ERR) :=
      fun heq => absurd (Event.loadbitResult.inj heq).2 (by decide)
    rw [loadBitVerdict_of_not_load hstop hload]
    exact ⟨List.mem_cons_self, (grows_regGetLoadResult hread _).trans
      (.trans (.emit herr _) (.emit (hdevice _) _))⟩
  | true =>
    have hreq : h.env.linkSwitch (cardSlotNum chip) = true ∧ cardChipNum chip = 2 := by
      by_contra hnot
      exact hrep ⟨hload, fun hreq => absurd hreq hnot⟩
    have hlinked : ¬ linkReported h.env (h.now + 2) chip = true :=
      fun hlinked => hrep ⟨hload, fun _ => hlinked⟩
    have hlink : SetsNoLoadOk chip (.linkResult (cardSlotNum chip) DEVICE_STATUS_LINK_ERR) :=
      Event.noConfusion
    rw [← regGetLinkResult_after_stop] at hlinked
    rw [loadBitVerdict_of_load hstop hload, if_pos hreq, linkVerdict]
    dsimp only
    rw [if_neg hlinked, loadVerdictEnd_of_ne (by decide)]
    refine ⟨List.mem_cons_of_mem _ List.mem_cons_self, .trans (.emit hread _) ?_⟩
    exact (grows_regGetLinkResult hread _).trans (.trans (.emit hlink _) (.emit (hdevice _) _))

end Verdict

/-! ### The events of a load -/

/-- The statuses that a verdict has are told apart by the payload of the answer. -/
theorem eq_ok_of_loadPayload_eq {chip : ℕ} {ret : ℤ}
    (hret : ret ∈ [M57_CARD_STATUS_OK, M57_CARD_STATUS_LOAD_FAILD, M57_CARD_STATUS_LINK_FAILD])
    (heq : loadPayload chip M57_CARD_STATUS_OK = loadPayload chip ret) :
    ret = M57_CARD_STATUS_OK := by
  have hword := List.append_cancel_left heq
  simp only [List.mem_cons, List.not_mem_nil, or_false] at hret
  rcases hret with rfl | rfl | rfl
  · rfl
  · exact absurd hword (by decide)
  · exact absurd hword (by decide)

section Performed

variable {created : Bool} {cn : Conn Ctx}

/-- A thread that is created and gets to its loop, and one that is not created. -/
theorem loadingBitfile_of_performed {c : Ctx} (hp : LoadPerformed created c) :
    (loadingBitfile created c.me c.sect.file.path c.host).1 = true ∧
      (fileHost created c).trace =
        c.host.trace ++ loadEvents created c ∧
      (fileHost created c).exited = false ∧
      (fileHost created c).env = c.host.env := by
  cases created with
  | false => exact ⟨rfl, (List.append_nil _).symm, hp.live, rfl⟩
  | true =>
    obtain ⟨hne, hopens⟩ := hp.opens rfl
    cases hfile : c.host.files.content c.sect.file.path with
    | none => exact absurd (congrArg (Option.getD · []) hfile) hne
    | some file =>
      have hsection : sectionFile c = file := congrArg (Option.getD · []) hfile
      rw [hsection] at hne
      have htrace := trace_loadingLoop (le_refl file.length) 0 0
        (c.host.emit (.loadStart c.me c.sect.file.path file))
      have hemits := emits_loadingLoop file.length file 0 0
        (c.host.emit (.loadStart c.me c.sect.file.path file))
      rw [now_emit] at htrace
      rw [fileHost, loadingBitfile, if_pos rfl, m57LoadingBitfileToFpga, hfile]
      dsimp only
      rw [hopens, if_neg Bool.false_ne_true, if_neg hne, loadEvents, if_pos rfl, hsection]
      refine ⟨rfl, htrace.trans ?_, hemits.exited.trans hp.live, hemits.env⟩
      exact List.append_assoc _ [_] _

theorem loadFileExitOn_of_performed (hp : LoadPerformed created cn.proto) :
    loadFileExitOn created cn =
      (m57LoadBitOver true { cn with proto := { cn.proto with host := fileHost created cn.proto } },
        -1) := by
  obtain ⟨hok, -, hlive, -⟩ := loadingBitfile_of_performed hp
  rw [loadFileExitOn]
  dsimp only
  rw [fileHost] at hlive
  rw [if_pos hp.isRunLoadfile, if_pos ⟨hp.isLoadfileOk, hp.present⟩, if_neg (by rw [hlive]; decide),
    if_pos hok]
  rfl

/-- The answer is the last event of a load. -/
theorem trace_m57LoadBitOver (result : Bool) (cn : Conn Ctx)
    (hopen : cn.proto.sect.isExitting = false) :
    ∃ isKeytool prio sn, (m57LoadBitOver result cn).proto.host.trace =
      (loadBitVerdict result cn.proto.sect.chipId cn.proto.host).2.trace ++
        [.send cn.proto.me (respFrame isKeytool prio sn CCT_RSP_LOAD.toNat
          (loadPayload cn.proto.sect.chipId
            (loadBitVerdict result cn.proto.sect.chipId cn.proto.host).1))] := by
  have hpos : 0 < CCT_RSP_LOAD := by decide
  rw [m57LoadBitOver, if_neg (by rw [hopen]; decide)]
  dsimp only
  rw [m57SendResp_of_pos hpos]
  exact ⟨_, _, _, rfl⟩

/-- The statuses of a verdict. -/
theorem loadBitVerdict_true_mem (chip : ℕ) (h : Host) : (loadBitVerdict true chip h).1 ∈
    [M57_CARD_STATUS_OK, M57_CARD_STATUS_LOAD_FAILD, M57_CARD_STATUS_LINK_FAILD] := by
  by_cases hstop : StopWritten h.env h.now
  · by_cases hrep : Reported h.env (h.now + 1) chip
    · obtain ⟨h', -, heq⟩ := loadBitVerdict_of_reported hstop hrep
      rw [heq]
      exact List.mem_cons_self
    · exact List.mem_cons_of_mem _ (loadBitVerdict_of_not_reported hstop hrep).1
  · rw [loadBitVerdict_of_not_stopWritten hstop]
    exact List.mem_cons_self

/-- A verdict is a success when the stop command was not written, or the registers reported
success. -/
theorem loadBitVerdict_true_eq_ok_iff (chip : ℕ) (h : Host) :
    (loadBitVerdict true chip h).1 = M57_CARD_STATUS_OK ↔
      (StopWritten h.env h.now → Reported h.env (h.now + 1) chip) := by
  by_cases hstop : StopWritten h.env h.now
  · by_cases hrep : Reported h.env (h.now + 1) chip
    · obtain ⟨h', -, heq⟩ := loadBitVerdict_of_reported hstop hrep
      rw [heq]
      exact iff_of_true rfl fun _ => hrep
    · have hfailed := (loadBitVerdict_of_not_reported hstop hrep).1
      refine iff_of_false (fun hok => ?_) fun h => hrep (h hstop)
      rw [hok] at hfailed
      exact absurd hfailed (by decide)
  · rw [loadBitVerdict_of_not_stopWritten hstop]
    exact iff_of_true rfl fun h => absurd h hstop

/-- The events of the verdict, behind the stop command: they write nothing, and they set the slot
when the stop command was written and the registers reported success. -/
theorem loadBitVerdict_true_events (chip : ℕ) (h : Host) :
    ∃ es, (loadBitVerdict true chip h).2.trace = h.trace ++ stopWrite chip :: es ∧
      (∀ e ∈ es, OfKind [.status] e) ∧
      (.loadbitResult (cardSlotNum chip) DEVICE_STATUS_LOAD_OK ∈ es ↔
        StopWritten h.env h.now ∧ Reported h.env (h.now + 1) chip) := by
  obtain ⟨es, hes, hkind⟩ := (emits_loadBitVerdict_true chip h).grows
  refine ⟨es, hes.trans (List.append_assoc _ [_] _), hkind, ?_⟩
  have hnew : newEvents (h.emit (stopWrite chip)) (loadBitVerdict true chip h).2 = es :=
    newEvents_of_append hes
  by_cases hstop : StopWritten h.env h.now
  · by_cases hrep : Reported h.env (h.now + 1) chip
    · refine iff_of_true ?_ ⟨hstop, hrep⟩
      obtain ⟨h', ⟨es', hes', -⟩, heq⟩ := loadBitVerdict_of_reported hstop hrep
      have hall : es = es' ++ [.loadbitResult (cardSlotNum chip) DEVICE_STATUS_LOAD_OK] ++
          [.deviceStatus DEVICE_STATUS_LOAD_OK chip] := by
        rw [← hnew, heq]
        refine newEvents_of_append ?_
        rw [← List.append_assoc, ← List.append_assoc, ← hes']
        rfl
      rw [hall]
      exact List.mem_append_left _ (List.mem_append_right _ List.mem_cons_self)
    · refine iff_of_false (fun hmem => ?_) fun h => hrep h.2
      have hnot := (loadBitVerdict_of_not_reported hstop hrep).2.newEvents
      rw [hnew] at hnot
      exact hnot _ hmem rfl
  · refine iff_of_false (fun hmem => ?_) fun h => hstop h.1
    rw [loadBitVerdict_of_not_stopWritten hstop] at hnew
    have hnone : newEvents (h.emit (stopWrite chip)) (h.emit (stopWrite chip)) = [] :=
      newEvents_of_append (List.append_nil _).symm
    rw [← hnew, hnone] at hmem
    exact absurd hmem List.not_mem_nil

/-- **The events of a load that is performed**: those of the file, the stop command, what the
verdict does, and the answer. -/
theorem newEvents_of_performed (hp : LoadPerformed created cn.proto) :
    ∃ es isKeytool prio sn,
      newEvents cn.proto.host (loadFileExitOn created cn).1.proto.host =
        loadEvents created cn.proto ++ stopWrite cn.proto.sect.chipId :: (es ++
          [.send cn.proto.me (respFrame isKeytool prio sn CCT_RSP_LOAD.toNat
            (loadPayload cn.proto.sect.chipId (loadBitVerdict true cn.proto.sect.chipId
              (fileHost created cn.proto)).1))]) ∧
      (∀ e ∈ es, OfKind [.status] e) ∧
      (.loadbitResult (cardSlotNum cn.proto.sect.chipId) DEVICE_STATUS_LOAD_OK ∈ es ↔
        StopWritten cn.proto.host.env (stopMoment created cn.proto) ∧
          Reported cn.proto.host.env (stopMoment created cn.proto + 1) cn.proto.sect.chipId) := by
  obtain ⟨-, htrace, -, henv⟩ := loadingBitfile_of_performed hp
  have hnow : (fileHost created cn.proto).now =
      stopMoment created cn.proto := by
    rw [Host.now, htrace, List.length_append]
    rfl
  obtain ⟨es, hverdict, hkind, hslot⟩ := loadBitVerdict_true_events cn.proto.sect.chipId
    (fileHost created cn.proto)
  rw [hnow, henv] at hslot
  rw [loadFileExitOn_of_performed hp]
  obtain ⟨isKeytool, prio, sn, hover⟩ := trace_m57LoadBitOver true
    ({ cn with proto := { cn.proto with
      host := fileHost created cn.proto } })
    hp.isExitting
  refine ⟨es, isKeytool, prio, sn, newEvents_of_append ?_, hkind, hslot⟩
  rw [hover, hverdict, htrace, List.append_assoc, List.append_assoc]
  rfl

theorem kind_of_mem_loadEvents {e : Event} {c : Ctx} (he : e ∈ loadEvents created c) :
    OfKind [.loadStart, .xdma] e := by
  rw [loadEvents] at he
  split_ifs at he
  · rcases List.mem_cons.mp he with rfl | he
    · exact List.mem_cons_self
    · obtain ⟨b, -, rfl⟩ := List.mem_map.mp he
      exact List.mem_cons_of_mem _ List.mem_cons_self
  · exact absurd he List.not_mem_nil

/-- A load that is performed is answered with a success unless the stop command was written and the
registers report a failure. -/
theorem answeredOk_iff (hp : LoadPerformed created cn.proto) :
    AnsweredOk created cn ↔ (StopWritten cn.proto.host.env (stopMoment created cn.proto) →
      Reported cn.proto.host.env (stopMoment created cn.proto + 1) cn.proto.sect.chipId) := by
  obtain ⟨-, htrace, -, henv⟩ := loadingBitfile_of_performed hp
  have hnow : (fileHost created cn.proto).now = stopMoment created cn.proto := by
    rw [Host.now, htrace, List.length_append]
    rfl
  have hverdict := loadBitVerdict_true_eq_ok_iff cn.proto.sect.chipId (fileHost created cn.proto)
  rw [hnow, henv] at hverdict
  obtain ⟨es, isKeytool, prio, sn, hnew, hkind, -⟩ := newEvents_of_performed hp
  rw [← hverdict]
  constructor
  · rintro (⟨isKeytool', prio', sn', hmem⟩ | ⟨hcode, -⟩)
    · rw [hnew] at hmem
      rcases List.mem_append.mp hmem with hmem | hmem
      · have hsend : EventKind.send ∉ [EventKind.loadStart, .xdma] := by decide
        exact absurd (kind_of_mem_loadEvents hmem) hsend
      rcases List.mem_cons.mp hmem with hmem | hmem
      · cases hmem
      rcases List.mem_append.mp hmem with hmem | hmem
      · have hsend : EventKind.send ∉ [EventKind.status] := by decide
        exact absurd (hkind _ hmem) hsend
      have hframe := (Event.send.inj (List.mem_singleton.mp hmem)).2
      exact eq_ok_of_loadPayload_eq (loadBitVerdict_true_mem _ _)
        (congrArg RespFrame.payload hframe)
    · rw [loadFileExitOn_of_performed hp] at hcode
      have hne : (-1 : ℤ) ≠ CCT_RSP_LOAD := by decide
      exact absurd hcode hne
  · intro hok
    refine .inl ⟨isKeytool, prio, sn, ?_⟩
    rw [hnew, hok]
    exact List.mem_append_right _ (List.mem_cons_of_mem _
      (List.mem_append_right _ List.mem_cons_self))

theorem slotLoadOk_iff (hp : LoadPerformed created cn.proto) :
    SlotLoadOk created cn ↔ StopWritten cn.proto.host.env (stopMoment created cn.proto) ∧
      Reported cn.proto.host.env (stopMoment created cn.proto + 1) cn.proto.sect.chipId := by
  obtain ⟨es, isKeytool, prio, sn, hnew, -, hslot⟩ := newEvents_of_performed hp
  rw [← hslot, SlotLoadOk, hnew]
  constructor
  · intro hmem
    rcases List.mem_append.mp hmem with hmem | hmem
    · have hstatus : EventKind.status ∉ [EventKind.loadStart, .xdma] := by decide
      exact absurd (kind_of_mem_loadEvents hmem) hstatus
    rcases List.mem_cons.mp hmem with hmem | hmem
    · cases hmem
    rcases List.mem_append.mp hmem with hmem | hmem
    · exact hmem
    · cases List.mem_singleton.mp hmem
  · exact fun hmem => List.mem_append_right _
      (List.mem_cons_of_mem _ (List.mem_append_left _ hmem))

/-- The bytes of a file that the FPGA takes are not more than the file with its zeros, and all of
them exactly when the file is written. -/
theorem fpgaBytes_loadEvents (created : Bool) {c : Ctx} {file : List UInt8}
    (hfile : c.host.files.content c.sect.file.path = some file)
    (hle : ∀ t n, c.host.env.writeXdmaData t n ≤ n) :
    (fpgaBytes c.host.env c.host.now (loadEvents created c)).length ≤ (padded file).length ∧
      ((fpgaBytes c.host.env c.host.now (loadEvents created c)).length = (padded file).length →
        FileWritten created c) ∧
      (FileWritten created c →
        fpgaBytes c.host.env c.host.now (loadEvents created c) = padded file) := by
  cases created with
  | false =>
    refine ⟨Nat.zero_le _, fun hlen => ⟨file, hfile, ?_⟩, ?_⟩
    · have hzero : 0 = file.length + align4byte file.length := hlen.trans (length_padded file)
      rw [if_neg Bool.false_ne_true]
      exact List.length_eq_zero_iff.mp (by omega)
    · rintro ⟨file', hfile', hnil⟩
      obtain rfl := Option.some.inj (hfile.symm.trans hfile')
      rw [if_neg Bool.false_ne_true] at hnil
      rw [hnil]
      rfl
  | true =>
    have hsection : sectionFile c = file := congrArg (Option.getD · []) hfile
    have hevents : fpgaBytes c.host.env c.host.now (loadEvents true c) =
        fpgaBytes c.host.env (c.host.now + 1)
          (blockWrites (passedBlocks c.host.env (c.host.now + 1) (blocks 4096 file))) := by
      rw [loadEvents, if_pos rfl, hsection]
      rfl
    have hblocks : ∀ b ∈ blocks 4096 file, b ≠ [] := fun _ => ne_nil_of_mem_blocks
    have hpadded : ((blocks 4096 file).map padded).flatten = padded file :=
      flatten_padded_blocks file
    obtain ⟨hlen, hwhole⟩ := length_fpgaBytes_passedBlocks hle (c.host.now + 1) hblocks
    rw [hevents, ← hpadded]
    refine ⟨hlen, fun heq => ⟨file, hfile, ?_⟩, ?_⟩
    · rw [if_pos rfl]
      exact hwhole heq
    · rintro ⟨file', hfile', hwritten⟩
      obtain rfl := Option.some.inj (hfile.symm.trans hfile')
      rw [if_pos rfl] at hwritten
      rw [passedBlocks_of_whole hblocks hwritten, fpgaBytes_of_whole _ hwritten]

/-- The bytes that the FPGA takes of the file and of the stop command are these exactly when they
are written completely. -/
theorem loadDone_iff (hp : LoadPerformed created cn.proto)
    (hle : ∀ t n, cn.proto.host.env.writeXdmaData t n ≤ n) :
    LoadDone created cn ↔ FileWritten created cn.proto ∧
      StopWritten cn.proto.host.env (stopMoment created cn.proto) ∧
      Reported cn.proto.host.env (stopMoment created cn.proto + 1) cn.proto.sect.chipId := by
  obtain ⟨es, isKeytool, prio, sn, hnew, hkind, -⟩ := newEvents_of_performed hp
  have hrest (e : Event) (he : e ∈ es ++ [.send cn.proto.me (respFrame isKeytool prio sn
      CCT_RSP_LOAD.toNat (loadPayload cn.proto.sect.chipId (loadBitVerdict true
        cn.proto.sect.chipId (fileHost created cn.proto)).1))]) : e.kind ≠ .xdma := by
    rcases List.mem_append.mp he with he | he
    · rw [List.mem_singleton.mp (hkind e he)]
      decide
    · rw [List.mem_singleton.mp he]
      exact EventKind.noConfusion
  have hbytes : fpgaBytes cn.proto.host.env cn.proto.host.now
      (newEvents cn.proto.host (loadFileExitOn created cn).1.proto.host) =
        fpgaBytes cn.proto.host.env cn.proto.host.now (loadEvents created cn.proto) ++
          (m57AssambleLoadfileCmd cn.proto.sect.chipId 0x01).take
            (cn.proto.host.env.writeXdmaData (stopMoment created cn.proto) 16).toNat := by
    rw [hnew, fpgaBytes_append, fpgaBytes, fpgaBytes_of_kind hrest, List.append_nil]
    rfl
  have hcmd := length_m57AssambleLoadfileCmd cn.proto.sect.chipId 0x01
  have hstop := hle (stopMoment created cn.proto) 16
  constructor
  · rintro ⟨⟨file, hfile, hwritten⟩, hrep⟩
    obtain ⟨hlen, hfileWritten, -⟩ := fpgaBytes_loadEvents created hfile hle
    rw [hbytes] at hwritten
    have hsum := congrArg List.length hwritten
    rw [List.length_append, List.length_append, List.length_take, hcmd] at hsum
    refine ⟨hfileWritten (by omega), ?_, hrep⟩
    rw [StopWritten]
    omega
  · rintro ⟨hwritten, hstopWritten, hrep⟩
    have hthere := hwritten
    obtain ⟨file, hfile, -⟩ := hthere
    obtain ⟨-, -, hall⟩ := fpgaBytes_loadEvents created hfile hle
    refine ⟨⟨file, hfile, ?_⟩, hrep⟩
    rw [hbytes, hall hwritten, hstopWritten]
    exact congrArg _ (List.take_of_length_le hcmd.le)

end Performed

/-! ### Without a load -/

section NotPerformed

variable {created : Bool} {cn : Conn Ctx} {me chip : ℕ}

/-- An event that is no success of a chip. -/
structure IsNoSuccess (me chip : ℕ) (e : Event) : Prop where
  slot : SetsNoLoadOk chip e
  answer : ∀ isKeytool prio sn, e ≠ .send me (respFrame isKeytool prio sn CCT_RSP_LOAD.toNat
    (loadPayload chip M57_CARD_STATUS_OK))

theorem isNoSuccess_of_kind (e : Event) (he : OfKind [.loadStart, .xdma] e) :
    IsNoSuccess me chip e := by
  cases e with
  | loadStart client path content => exact ⟨Event.noConfusion, fun _ _ _ => Event.noConfusion⟩
  | xdma data => exact ⟨Event.noConfusion, fun _ _ _ => Event.noConfusion⟩
  | _ => simp [OfKind, Event.kind] at he

theorem isNoSuccess_loadbitResult {status : ℤ} (hstatus : status ≠ DEVICE_STATUS_LOAD_OK) :
    IsNoSuccess me chip (.loadbitResult (cardSlotNum chip) status) :=
  ⟨fun heq => hstatus (Event.loadbitResult.inj heq).2, fun _ _ _ => Event.noConfusion⟩

theorem isNoSuccess_deviceStatus (status : ℤ) : IsNoSuccess me chip (.deviceStatus status chip) :=
  ⟨Event.noConfusion, fun _ _ _ => Event.noConfusion⟩

/-- A status of a slot that is no success, and the status of its device. -/
theorem grows_noSuccess {status : ℤ} (hstatus : status ≠ DEVICE_STATUS_LOAD_OK) (h : Host) :
    Grows (IsNoSuccess me chip) h ((h.emit (.loadbitResult (cardSlotNum chip) status)).emit
      (.deviceStatus status chip)) :=
  .trans (.emit (isNoSuccess_loadbitResult hstatus) _) (.emit (isNoSuccess_deviceStatus status) _)

/-- A load that failed is answered with `M57_CARD_STATUS_LOAD_FAILD`. -/
theorem grows_noSuccess_m57LoadBitOver (cn : Conn Ctx) :
    Grows (IsNoSuccess cn.proto.me cn.proto.sect.chipId) cn.proto.host
      (m57LoadBitOver false cn).proto.host := by
  cases hexit : cn.proto.sect.isExitting with
  | true =>
    rw [m57LoadBitOver, if_pos hexit]
    exact .refl _
  | false =>
    obtain ⟨isKeytool, prio, sn, htrace⟩ := trace_m57LoadBitOver false cn hexit
    refine (grows_noSuccess (by decide) _).trans ⟨_, htrace, fun e he => ?_⟩
    obtain rfl := List.mem_singleton.mp he
    refine ⟨Event.noConfusion, fun isKeytool' prio' sn' heq => ?_⟩
    have hpayload : loadPayload cn.proto.sect.chipId M57_CARD_STATUS_LOAD_FAILD =
        loadPayload cn.proto.sect.chipId M57_CARD_STATUS_OK :=
      congrArg RespFrame.payload (Event.send.inj heq).2
    have hfaild := eq_ok_of_loadPayload_eq (List.mem_cons_of_mem _ List.mem_cons_self) hpayload.symm
    exact absurd hfaild (by decide)

theorem m57LoadBitOver_me (result : Bool) (cn : Conn Ctx) :
    (m57LoadBitOver result cn).proto.me = cn.proto.me ∧
      (m57LoadBitOver result cn).proto.sect.chipId = cn.proto.sect.chipId := by
  have hpos : 0 < CCT_RSP_LOAD := by decide
  rw [m57LoadBitOver]
  split_ifs
  · exact ⟨rfl, rfl⟩
  · dsimp only
    rw [m57SendResp_of_pos hpos]
    exact ⟨rfl, rfl⟩

/-- A thread that reports success was not created, or it has opened the file and passed its
division. -/
theorem opens_of_loadingBitfile {c : Ctx}
    (hok : (loadingBitfile created c.me c.sect.file.path c.host).1 = true)
    (hlive : (fileHost created c).exited = false) :
    c.host.exited = false ∧
      (created = true → sectionFile c ≠ [] ∧ c.host.env.loadOpenFails c.host.now = false) := by
  cases created with
  | false => exact ⟨hlive, fun hfalse => absurd hfalse Bool.false_ne_true⟩
  | true =>
    rw [fileHost, loadingBitfile, if_pos rfl] at hlive
    rw [loadingBitfile, if_pos rfl] at hok
    unfold m57LoadingBitfileToFpga at hok hlive
    cases hfile : c.host.files.content c.sect.file.path with
    | none =>
      rw [hfile] at hok
      exact absurd hok Bool.false_ne_true
    | some file =>
      have hsection : sectionFile c = file := congrArg (Option.getD · []) hfile
      rw [hfile] at hok hlive
      dsimp only at hok hlive
      split_ifs at hok hlive with hfails hnil
      rw [hsection]
      have hemits := emits_loadingLoop file.length file 0 0
        (c.host.emit (.loadStart c.me c.sect.file.path file))
      exact ⟨hemits.exited.symm.trans hlive, fun _ => ⟨hnil, Bool.eq_false_iff.mpr hfails⟩⟩

theorem grows_fileHost (me chip : ℕ) (created : Bool) (c : Ctx) :
    Grows (IsNoSuccess me chip) c.host (fileHost created c) := by
  cases created with
  | false => exact .refl _
  | true => exact (grows_loadingBitfile _ _ _).mono isNoSuccess_of_kind

/-- What happens when no load is performed: nothing that is a success, and an answer through the
code has the status `M57_CARD_STATUS_LOAD_FAILD`. -/
theorem grows_noSuccess_loadFileExitOn (hnot : ¬ LoadPerformed created cn.proto) :
    Grows (IsNoSuccess cn.proto.me cn.proto.sect.chipId) cn.proto.host
        (loadFileExitOn created cn).1.proto.host ∧
      ((loadFileExitOn created cn).2 = CCT_RSP_LOAD →
        (loadFileExitOn created cn).1.response.data =
          loadPayload cn.proto.sect.chipId M57_CARD_STATUS_LOAD_FAILD) := by
  have hcode : (-1 : ℤ) ≠ CCT_RSP_LOAD := by decide
  have hfile := grows_fileHost cn.proto.me cn.proto.sect.chipId created cn.proto
  rw [loadFileExitOn]
  dsimp only
  by_cases hrun : cn.proto.sect.isRunLoadfile = false
  · rw [if_pos hrun]
    by_cases hready : cn.proto.sect.isLoadfileOk = true ∧
        ioXdmaIsValidChipid cn.proto.host cn.proto.sect.chipId = true
    · have hhost : (loadingBitfile created cn.proto.me cn.proto.sect.file.path cn.proto.host).2 =
          fileHost created cn.proto := rfl
      rw [if_pos hready, hhost]
      by_cases hexited : (fileHost created cn.proto).exited = true
      · rw [if_pos hexited]
        exact ⟨hfile, fun h => absurd h hcode⟩
      rw [if_neg hexited]
      by_cases hok : (loadingBitfile created cn.proto.me cn.proto.sect.file.path cn.proto.host).1 =
          true
      · -- the file was written: only a client that is being closed gets no verdict
        have hlive := Bool.eq_false_iff.mpr hexited
        obtain ⟨hhost, hopens⟩ := opens_of_loadingBitfile hok hlive
        have hexitting : cn.proto.sect.isExitting = true := by
          by_contra hopen
          exact hnot ⟨hrun, hready.1, hready.2, hhost, Bool.eq_false_iff.mpr hopen, hopens⟩
        rw [if_pos hok, m57LoadBitOver, if_pos hexitting]
        exact ⟨hfile, fun h => absurd h hcode⟩
      · rw [if_neg hok]
        have hover := grows_noSuccess_m57LoadBitOver
          { cn with proto := { cn.proto with host := fileHost created cn.proto } }
        obtain ⟨-, hchip⟩ := m57LoadBitOver_me false
          { cn with proto := { cn.proto with host := fileHost created cn.proto } }
        rw [loadFailed]
        refine ⟨hfile.trans (hover.trans ?_), fun _ => ?_⟩
        · rw [← hchip]
          exact grows_noSuccess (by decide) _
        · exact congrArg (loadPayload · M57_CARD_STATUS_LOAD_FAILD) hchip
    · rw [if_neg hready]
      exact ⟨grows_noSuccess (by decide) _, fun _ => rfl⟩
  · rw [if_neg hrun]
    exact ⟨grows_noSuccess (by decide) _, fun h => absurd h hcode⟩

theorem not_success_of_not_performed (hnot : ¬ LoadPerformed created cn.proto) :
    ¬ AnsweredOk created cn ∧ ¬ SlotLoadOk created cn := by
  obtain ⟨hgrows, hcode⟩ := grows_noSuccess_loadFileExitOn hnot
  refine ⟨?_, fun hslot => (hgrows.newEvents _ hslot).slot rfl⟩
  rintro (⟨isKeytool, prio, sn, hmem⟩ | ⟨hrsp, hdata⟩)
  · exact (hgrows.newEvents _ hmem).answer isKeytool prio sn rfl
  · have hfaild := eq_ok_of_loadPayload_eq (List.mem_cons_of_mem _ List.mem_cons_self)
      (hdata.symm.trans (hcode hrsp))
    exact absurd hfaild (by decide)

end NotPerformed

/-- **When the result of a load is truthful**: no load is performed, or the stop command is written
completely, and where the registers report success the file is written completely too. -/
theorem truthfulLoad_iff (created : Bool) (cn : Conn Ctx)
    (hstream : XdmaIsStream cn.proto.host.env) :
    TruthfulLoad created cn ↔ (LoadPerformed created cn.proto →
      StopWritten cn.proto.host.env (stopMoment created cn.proto) ∧
        (Reported cn.proto.host.env (stopMoment created cn.proto + 1) cn.proto.sect.chipId →
          FileWritten created cn.proto)) := by
  by_cases hp : LoadPerformed created cn.proto
  · have hdone := loadDone_iff hp hstream.le
    constructor
    · intro htrue _
      have hstop : StopWritten cn.proto.host.env (stopMoment created cn.proto) := by
        by_contra hnot
        have hanswered := (answeredOk_iff hp).mpr fun hstop => absurd hstop hnot
        exact hnot (hdone.mp (htrue.answer hanswered)).2.1
      refine ⟨hstop, fun hrep => ?_⟩
      exact (hdone.mp (htrue.slot ((slotLoadOk_iff hp).mpr ⟨hstop, hrep⟩))).1
    · intro hcond
      obtain ⟨hstop, hwritten⟩ := hcond hp
      refine ⟨fun hanswered => ?_, fun hslot => ?_⟩
      · have hrep := (answeredOk_iff hp).mp hanswered hstop
        exact hdone.mpr ⟨hwritten hrep, hstop, hrep⟩
      · have hrep := ((slotLoadOk_iff hp).mp hslot).2
        exact hdone.mpr ⟨hwritten hrep, hstop, hrep⟩
  · obtain ⟨hanswer, hslot⟩ := not_success_of_not_performed hp
    exact iff_of_true ⟨fun h => absurd h hanswer, fun h => absurd h hslot⟩ fun h => absurd h hp

/-! ### Five bytes -/

/-- An environment in which a write of `n` bytes takes `k` of them, every other operation succeeds,
and the load registers report success. -/
def Env.taking (n k : ℕ) : Env :=
  { Env.reliable with
    writeXdmaData := fun _ m => if m = n then k else m
    statusReg := fun _ _ _ => { c0Load := 1, c1Load := 1 } }

/-- A client that has transferred five bytes for chip 1 of slot 2. -/
def fiveBytes (env : Env) : Conn Ctx where
  proto :=
    { me := 0
      sect := { file := { path := ['a'] }, isLoadfileOk := true, chipId := 0x0201 }
      host := { hostWith ['a'] [1, 2, 3, 4, 5] with env, cards := fun _ => true } }

theorem xdmaIsStream_taking {n k : ℕ} (hk : k ≤ n) : XdmaIsStream (Env.taking n k) := by
  intro t m
  have hres : (Env.taking n k).writeXdmaData t m = ((if m = n then k else m : ℕ) : ℤ) := by
    rw [Nat.cast_ite]
    rfl
  rw [hres]
  cases m with
  | zero =>
    refine ⟨true, [], congrArg some (Int.ofNat_inj.mpr ?_)⟩
    split_ifs <;> omega
  | succ m =>
    refine ⟨true, [.written (if m + 1 = n then k else m + 1), .wouldBlock], ?_⟩
    rw [xspmStramWrite, if_neg (Nat.succ_ne_zero m), if_pos rfl, xspmWriteLoop, Nat.zero_add]
    have hmin : min (if m + 1 = n then k else m + 1) (m + 1) = if m + 1 = n then k else m + 1 := by
      split_ifs <;> omega
    rw [hmin]
    cases m + 1 - (if m + 1 = n then k else m + 1) <;> rfl

/-- Five bytes that are written completely are answered truthfully. -/
theorem truthfulLoad_fiveBytes : TruthfulLoad true (fiveBytes (Env.taking 0 0)) :=
  (truthfulLoad_iff true (fiveBytes (Env.taking 0 0)) (xdmaIsStream_taking (le_refl 0))).mpr
    fun _ => ⟨rfl, fun _ => ⟨[1, 2, 3, 4, 5], rfl, rfl, trivial⟩⟩

/-- A success is answered when the FPGA takes four of the eight bytes of the file, when it takes
four bytes of the stop command, and when there is no thread. -/
theorem not_truthfulLoad_fiveBytes :
    ¬ TruthfulLoad true (fiveBytes (Env.taking 8 4)) ∧
      ¬ TruthfulLoad true (fiveBytes (Env.taking 16 4)) ∧
      ¬ TruthfulLoad false (fiveBytes (Env.taking 0 0)) := by
  have hfile (file : List UInt8) (env : Env)
      (h : (fiveBytes env).proto.host.files.content ['a'] = some file) : [1, 2, 3, 4, 5] = file :=
    Option.some.inj h
  refine ⟨fun htrue => ?_, fun htrue => ?_, fun htrue => ?_⟩
  · obtain ⟨⟨file, hcontent, hwritten⟩, -⟩ := htrue.slot (by rw [SlotLoadOk]; decide)
    obtain rfl := hfile file _ hcontent
    exact absurd hwritten (by decide)
  · obtain ⟨⟨file, hcontent, hwritten⟩, -⟩ :=
      htrue.answer (.inl ⟨false, 0, 0, by decide⟩)
    obtain rfl := hfile file _ hcontent
    exact absurd hwritten (by decide)
  · obtain ⟨⟨file, hcontent, hwritten⟩, -⟩ := htrue.slot (by rw [SlotLoadOk]; decide)
    obtain rfl := hfile file _ hcontent
    exact absurd hwritten (by decide)

end M57Card.M57
