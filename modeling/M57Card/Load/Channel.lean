import M57Card.Load.Complete

/-!
# The write channel to the FPGA

All that reaches the FPGA goes through `write_xdma_data`, in the order of the calls: the start
command of a LOAD, the blocks of a file and the stop command at the end of a transfer, the unload
command and the data frames that are passed through. This file says what each input writes.

The blocks of a file have `4096` bytes, the last one possibly less, and are filled with zeros to a
multiple of four. The loop ends early at a block that the FPGA does not take, and the stop command
is written all the same.

## Main definitions

* `XdmaWrites` : every write to the FPGA makes progress.
* `WrittenBlocks`, `passedBlocks`, `blockWrites` : the blocks that a load writes.
* `startWrite`, `stopWrite` : the commands around them.
* `WritesChannel` : the inputs that write to the FPGA.

## Main results

* `trace_loadingLoop`, `eventsOf_loadingLoop` : the loop writes the blocks of the file.
* `eventsOf_xdma_fileTransfer` : a FILE_TRANSFER writes nothing, or a file and the stop command.
* `eventsOf_xdma_of_not_writesChannel` : other inputs write nothing.
-/

namespace M57Card.M57

open Net Bytes

/-- Every write of a non-empty buffer to the FPGA makes progress. -/
def XdmaWrites (env : Env) : Prop := ∀ t n, 0 < n → 0 < env.writeXdmaData t n

/-- The blocks of a file up to the first one that the FPGA does not take: all of them if it takes
every block. -/
structure WrittenBlocks (env : Env) (file : List UInt8) (bs : List (List UInt8)) : Prop where
  isPrefix : bs <+: blocks 4096 file
  all : XdmaWrites env → bs = blocks 4096 file

/-- The blocks that the loop passes to the FPGA from the moment `t` on: it ends at the first one
that the FPGA does not take. -/
def passedBlocks (env : Env) : ℕ → List (List UInt8) → List (List UInt8)
  | _, [] => []
  | t, b :: bs =>
      b :: if env.writeXdmaData t (padded b).length ≤ 0 then [] else passedBlocks env (t + 1) bs

/-- The writes of blocks. -/
def blockWrites (bs : List (List UInt8)) : List Event := bs.map fun b => .xdma (padded b)

/-- The write of `_m57_start_load_bitfile_to_fpga`. -/
def startWrite (chip : ℕ) : Event := .xdma (m57AssambleLoadfileCmd chip 0x00)

/-- The write of `_m57_stop_load_bitfile_to_fpga`. -/
def stopWrite (chip : ℕ) : Event := .xdma (m57AssambleLoadfileCmd chip 0x01)

/-! ### The blocks of a file -/

theorem padded_ne_nil {b : List UInt8} (hb : b ≠ []) : padded b ≠ [] := by
  rw [padded]
  exact List.append_ne_nil_of_left_ne_nil hb _

theorem writeXdmaData_of_ne_nil {b : List UInt8} (hb : b ≠ []) (h : Host) :
    h.writeXdmaData b = (h.env.writeXdmaData h.now b.length, h.emit (.xdma b)) := by
  rw [Host.writeXdmaData, if_neg hb]

theorem eventsOf_emit_xdma (b : List UInt8) (h : Host) :
    (h.emit (.xdma b)).eventsOf .xdma = h.eventsOf .xdma ++ [.xdma b] := by
  rw [Host.eventsOf_emit]
  rfl

theorem ne_nil_of_mem_blocks {b file : List UInt8} (hb : b ∈ blocks 4096 file) : b ≠ [] := by
  obtain ⟨j, hj, rfl⟩ := List.mem_map.mp hb
  have hlt := List.mem_range.mp hj
  refine List.ne_nil_of_length_pos ?_
  rw [List.length_take, List.length_drop]
  omega

theorem passedBlocks_isPrefix (env : Env) (t : ℕ) (bs : List (List UInt8)) :
    passedBlocks env t bs <+: bs := by
  induction bs generalizing t with
  | nil => exact List.prefix_rfl
  | cons b bs ih =>
    rw [passedBlocks]
    refine (List.prefix_cons_inj b).mpr ?_
    split_ifs
    · exact List.nil_prefix
    · exact ih (t + 1)

theorem passedBlocks_of_xdmaWrites {env : Env} (hx : XdmaWrites env) (t : ℕ)
    {bs : List (List UInt8)} (hbs : ∀ b ∈ bs, b ≠ []) : passedBlocks env t bs = bs := by
  induction bs generalizing t with
  | nil => rfl
  | cons b bs ih =>
    obtain ⟨hb, hbs⟩ := List.forall_mem_cons.mp hbs
    have hpos := hx t _ (List.length_pos_iff.mpr (padded_ne_nil hb))
    rw [passedBlocks, if_neg (not_le.mpr hpos), ih (t + 1) hbs]

/-- What the loop does to the host: it writes blocks, up to the first one that the FPGA does not
take. -/
theorem trace_loadingLoop {k : ℕ} {rest : List UInt8} (hk : rest.length ≤ k) (total : ℤ)
    (reminder : ℕ) (h : Host) :
    (loadingLoop k rest total reminder h).2.2.trace =
      h.trace ++ blockWrites (passedBlocks h.env h.now (blocks 4096 rest)) := by
  induction k generalizing rest total reminder h with
  | zero =>
    obtain rfl := List.length_eq_zero_iff.mp (Nat.le_zero.mp hk)
    rw [blocks_nil]
    exact (List.append_nil _).symm
  | succ k ih =>
    by_cases hrest : rest = []
    · rw [loadingLoop, hrest, blocks_nil]
      exact (List.append_nil _).symm
    have hblock : rest.take 4096 ≠ [] := by
      rw [ne_eq, List.take_eq_nil_iff]
      exact not_or.mpr ⟨by decide, hrest⟩
    have hwrite := writeXdmaData_of_ne_nil (padded_ne_nil hblock) h
    rw [blocks_of_ne_nil (by decide) hrest, passedBlocks, loadingLoop]
    dsimp only
    rw [if_neg hblock, hwrite]
    dsimp only
    by_cases hrefused : h.env.writeXdmaData h.now (padded (rest.take 4096)).length ≤ 0
    · rw [if_pos hrefused, if_pos hrefused]
      rfl
    · rw [if_neg hrefused, if_neg hrefused]
      have hlen := List.length_pos_iff.mpr hrest
      rw [ih (show (rest.drop 4096).length ≤ k by rw [List.length_drop]; omega), now_emit]
      exact List.append_assoc _ _ _

theorem eventsOf_of_trace_blockWrites {h h' : Host} {bs : List (List UInt8)}
    (htrace : h'.trace = h.trace ++ blockWrites bs) :
    h'.eventsOf .xdma = h.eventsOf .xdma ++ blockWrites bs := by
  have hall : (blockWrites bs).filter (fun e => e.kind = .xdma) = blockWrites bs := by
    refine List.filter_eq_self.mpr fun e he => ?_
    obtain ⟨b, -, rfl⟩ := List.mem_map.mp he
    rfl
  rw [Host.eventsOf, htrace, List.filter_append, hall]
  rfl

/-- The loop writes the blocks of the file, up to the first one that the FPGA does not take. -/
theorem eventsOf_loadingLoop {k : ℕ} {rest : List UInt8} (hk : rest.length ≤ k) (total : ℤ)
    (reminder : ℕ) (h : Host) :
    ∃ bs, WrittenBlocks h.env rest bs ∧
      (loadingLoop k rest total reminder h).2.2.eventsOf .xdma =
        h.eventsOf .xdma ++ blockWrites bs :=
  ⟨_, ⟨passedBlocks_isPrefix _ _ _,
    fun hx => passedBlocks_of_xdmaWrites hx _ fun _ => ne_nil_of_mem_blocks⟩,
    eventsOf_of_trace_blockWrites (trace_loadingLoop hk total reminder h)⟩

/-- A load writes the blocks of the file; one that cannot be started writes nothing. -/
theorem eventsOf_xdma_loadingBitfile (client : ℕ) (path : Path) (h : Host) :
    (m57LoadingBitfileToFpga client path h).1 = false ∧
        (m57LoadingBitfileToFpga client path h).2.eventsOf .xdma = h.eventsOf .xdma ∨
      (m57LoadingBitfileToFpga client path h).1 = true ∧
        (m57LoadingBitfileToFpga client path h).2.exited = h.exited ∧
        ∃ file bs, h.files.content path = some file ∧ WrittenBlocks h.env file bs ∧
          (m57LoadingBitfileToFpga client path h).2.eventsOf .xdma =
            h.eventsOf .xdma ++ blockWrites bs := by
  have hstart (content : List UInt8) :
      (h.emit (.loadStart client path content)).eventsOf .xdma = h.eventsOf .xdma := by
    rw [Host.eventsOf_emit]
    exact List.append_nil _
  unfold m57LoadingBitfileToFpga
  cases h.files.content path with
  | none => exact .inl ⟨rfl, hstart []⟩
  | some file =>
    dsimp only
    split_ifs
    · exact .inl ⟨rfl, hstart file⟩
    · exact .inl ⟨rfl, hstart file⟩
    · obtain ⟨bs, hbs, hevents⟩ :=
        eventsOf_loadingLoop (le_refl file.length) 0 0 (h.emit (.loadStart client path file))
      refine .inr ⟨rfl, (emits_loadingLoop _ _ _ _ _).exited, file, bs, rfl, hbs, ?_⟩
      rw [hevents, hstart]

/-! ### The end of FILE_TRANSFER -/

/-- After a load that was performed the stop command is written, unless the client is being
closed. -/
theorem eventsOf_xdma_m57LoadBitOver {cn : Conn Ctx} (hopen : cn.proto.sect.isExitting = false) :
    (m57LoadBitOver true cn).proto.host.eventsOf .xdma =
      cn.proto.host.eventsOf .xdma ++ [stopWrite cn.proto.sect.chipId] := by
  have hverdict := (emits_loadBitVerdict_true cn.proto.sect.chipId cn.proto.host).grows.eventsOf_eq
    (show EventKind.xdma ∉ [EventKind.status] by decide)
  rw [eventsOf_emit_xdma] at hverdict
  rw [m57LoadBitOver, if_neg (by rw [hopen]; decide)]
  exact ((grows_m57SendResp _ _).eventsOf_eq (by decide)).trans hverdict

theorem eventsOf_xdma_m57LoadBitOver_false (cn : Conn Ctx) :
    (m57LoadBitOver false cn).proto.host.eventsOf .xdma = cn.proto.host.eventsOf .xdma := by
  have hverdict := (emits_loadBitVerdict_false cn.proto.sect.chipId cn.proto.host).grows.eventsOf_eq
    (show EventKind.xdma ∉ [EventKind.status] by decide)
  rw [m57LoadBitOver]
  split_ifs
  · rfl
  · exact ((grows_m57SendResp _ _).eventsOf_eq (by decide)).trans hverdict

/-- Without a load the end of FILE_TRANSFER writes nothing. -/
theorem eventsOf_xdma_loadFileExit_of_not {cn : Conn Ctx}
    (hnot : ¬ (cn.proto.sect.isRunLoadfile = false ∧ cn.proto.sect.isLoadfileOk = true ∧
      ioXdmaIsValidChipid cn.proto.host cn.proto.sect.chipId = true)) :
    (loadFileExit cn).1.proto.host.eventsOf .xdma = cn.proto.host.eventsOf .xdma := by
  rw [loadFileExit]
  dsimp only
  by_cases hrun : cn.proto.sect.isRunLoadfile = false
  · rw [if_pos hrun, if_neg fun hok => hnot ⟨hrun, hok⟩]
    exact (grows_loadFailed cn).eventsOf_eq (by decide)
  · rw [if_neg hrun]
    exact Grows.eventsOf_eq ((emits_status rfl _).trans (emits_status rfl _)).grows (by decide)

/-- The end of FILE_TRANSFER writes nothing, or the file of the section and the stop command. -/
theorem eventsOf_xdma_loadFileExit (cn : Conn Ctx) (hlive : cn.proto.host.exited = false)
    (hopen : cn.proto.sect.isExitting = false) :
    (loadFileExit cn).1.proto.host.eventsOf .xdma = cn.proto.host.eventsOf .xdma ∨
      ∃ file bs, cn.proto.host.files.content cn.proto.sect.file.path = some file ∧
        startedLoad cn.proto = [.loadStart cn.proto.me cn.proto.sect.file.path file] ∧
        WrittenBlocks cn.proto.host.env file bs ∧
        (loadFileExit cn).1.proto.host.eventsOf .xdma = cn.proto.host.eventsOf .xdma ++
          (blockWrites bs ++ [stopWrite cn.proto.sect.chipId]) := by
  by_cases hstarts : cn.proto.sect.isRunLoadfile = false ∧ cn.proto.sect.isLoadfileOk = true ∧
      ioXdmaIsValidChipid cn.proto.host cn.proto.sect.chipId = true
  · have hload := eventsOf_xdma_loadingBitfile cn.proto.me cn.proto.sect.file.path cn.proto.host
    rw [startedLoad, if_pos hstarts, loadFileExit]
    dsimp only
    rw [if_pos hstarts.1, if_pos hstarts.2]
    generalize m57LoadingBitfileToFpga cn.proto.me cn.proto.sect.file.path cn.proto.host = r
      at hload
    obtain ⟨ok, h⟩ := r
    rcases hload with ⟨rfl, hsame⟩ | ⟨rfl, hexited, file, bs, hfile, hbs, hevents⟩
    · left
      by_cases hexit : h.exited = true
      · rw [if_pos hexit]
        exact hsame
      · rw [if_neg hexit, if_neg Bool.false_ne_true]
        refine ((grows_loadFailed _).eventsOf_eq (by decide)).trans ?_
        exact (eventsOf_xdma_m57LoadBitOver_false _).trans hsame
    · refine .inr ⟨file, bs, hfile, by rw [hfile]; rfl, hbs, ?_⟩
      dsimp only
      rw [if_neg (by rw [hexited.trans hlive]; decide), if_pos rfl,
        eventsOf_xdma_m57LoadBitOver (by exact hopen), ← List.append_assoc]
      exact congrArg (· ++ _) hevents
  · exact .inl (eventsOf_xdma_loadFileExit_of_not hstarts)

/-! ### Inputs -/

/-- A FILE_TRANSFER writes nothing to the FPGA, or it starts a load and writes, one behind the
other, the blocks of the file and the stop command. -/
theorem eventsOf_xdma_fileTransfer {body : List UInt8} {c : Ctx}
    (hcmd : cardCmd (u16 body 0) = .fileTransfer) (hlive : c.host.exited = false)
    (hopen : c.sect.isExitting = false) :
    (command body c).host.eventsOf .xdma = c.host.eventsOf .xdma ∨
      ∃ file bs, (received body c).host.files.content c.sect.file.path = some file ∧
        (command body c).host.eventsOf .loadStart =
          c.host.eventsOf .loadStart ++ [.loadStart c.me c.sect.file.path file] ∧
        WrittenBlocks c.host.env file bs ∧
        (command body c).host.eventsOf .xdma = c.host.eventsOf .xdma ++
          (blockWrites bs ++ [stopWrite c.sect.chipId]) := by
  have hsame := sameCard_received body c
  have hxdma : (received body c).host.eventsOf .xdma = c.host.eventsOf .xdma := by
    rw [← eventsOf_emit_execute body c (show EventKind.xdma ≠ .frame by decide), received]
    split_ifs
    · rfl
    · exact (grows_receiveChunk _ _ _).eventsOf_eq (by decide)
  have hexit := eventsOf_xdma_loadFileExit { proto := received body c }
    (hsame.exited.trans hlive) (hsame.isExitting.trans hopen)
  rw [← executeSwitch_fileTransfer hcmd, ← eventsOf_command body c (by decide)] at hexit
  dsimp only at hexit
  rw [hxdma, hsame.me, hsame.env, hsame.path, hsame.chipId] at hexit
  rcases hexit with hnone | ⟨file, bs, hfile, hstart, hbs, hevents⟩
  · exact .inl hnone
  · refine .inr ⟨file, bs, hfile, ?_, hbs, hevents⟩
    rw [(command_fileTransfer hcmd c).2.1, hstart]

/-- The inputs that write to the FPGA: data frames, LOAD and UNLOAD for a card that is present, and
the FILE_TRANSFER commands that start a load. -/
def WritesChannel (c : Ctx) : Input → Prop
  | .data _ => True
  | .keyRead _ | .keyWrite _ => False
  | .cmd body =>
      match cardCmd (u16 body 0) with
      | .load | .unload => ioXdmaIsValidChipid c.host (u16 body 8) = true
      | .fileTransfer => StartsLoad c body
      | _ => False

/-- Other commands write nothing to the FPGA. -/
theorem eventsOf_xdma_command {body : List UInt8} {c : Ctx}
    (hnot : ¬ WritesChannel c (.cmd body)) :
    (command body c).host.eventsOf .xdma = c.host.eventsOf .xdma := by
  rw [← eventsOf_emit_execute body c (show EventKind.xdma ≠ .frame by decide),
    eventsOf_command body c (by decide)]
  by_cases hload : cardCmd (u16 body 0) = .load
  · simp only [WritesChannel, hload, Bool.not_eq_true] at hnot
    rw [executeSwitch_load hload, executeLoad_rejected { proto := c.emit (.execute body) } hnot]
    rfl
  by_cases hunload : cardCmd (u16 body 0) = .unload
  · simp only [WritesChannel, hunload, Bool.not_eq_true] at hnot
    simp only [executeSwitch, hunload, executeUnload]
    rw [if_pos (by exact hnot)]
    rfl
  by_cases htrans : cardCmd (u16 body 0) = .fileTransfer
  · simp only [WritesChannel, htrans] at hnot
    rw [executeSwitch_fileTransfer htrans,
      eventsOf_xdma_loadFileExit_of_not ((startsLoad_iff c body).not.mp hnot), received]
    split_ifs
    · rfl
    · exact (grows_receiveChunk _ _ _).eventsOf_eq (by decide)
  · exact (grows_executeSwitch_quiet body.length hload hunload htrans _).eventsOf_eq (by decide)

/-- Inputs that are not among the ones of `WritesChannel` write nothing to the FPGA. -/
theorem eventsOf_xdma_of_not_writesChannel {i : Input} {c : Ctx} (hnot : ¬ WritesChannel c i) :
    (i.effect c).host.eventsOf .xdma = c.host.eventsOf .xdma := by
  cases i with
  | cmd body => exact eventsOf_xdma_command hnot
  | keyRead rest =>
    rw [Input.effect]
    exact eventsOf_xdma_command (by simp only [WritesChannel, cardCmd_keyRead]; exact id)
  | keyWrite rest =>
    rw [Input.effect]
    exact eventsOf_xdma_command (by simp only [WritesChannel, cardCmd_keyWrite]; exact id)
  | data frame => exact absurd trivial hnot

/-- An accepted LOAD that does not end the process writes the start command. -/
theorem eventsOf_xdma_load {load : List UInt8} {c : Ctx} (hcmd : cardCmd (u16 load 0) = .load)
    (hlive : c.host.exited = false) (hv : ioXdmaIsValidChipid c.host (u16 load 8) = true)
    (hlive' : (command load c).host.exited = false) :
    (command load c).host.eventsOf .xdma =
      c.host.eventsOf .xdma ++ [startWrite (u16 load 8)] := by
  rw [exited_command, executeSwitch_load hcmd] at hlive'
  rw [← eventsOf_emit_execute load c (show EventKind.xdma ≠ .frame by decide),
    eventsOf_command load c (by decide), executeSwitch_load hcmd]
  cases hfails : (c.emit (.execute load)).host.env.openFails (c.emit (.execute load)).host.now with
  | true =>
    have hexit := exited_executeLoad { proto := c.emit (.execute load) } hv hfails
    exact Bool.noConfusion (hlive'.symm.trans hexit)
  | false =>
    obtain ⟨files, heq⟩ := executeLoad_accepted { proto := c.emit (.execute load) } hv hlive hfails
    rw [heq]
    refine (eventsOf_emit_xdma _ _).trans (congrArg (· ++ _) ?_)
    rw [Host.eventsOf_emit]
    exact List.append_nil _

end M57Card.M57
