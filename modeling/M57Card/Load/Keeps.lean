import M57Card.Protocol.Effects

/-!
# What a transfer rests on

A file transfer rests on some fields of the section, on the descriptor table, on the content of
the temporary files and on the cards that are present. Most commands leave all of this alone, and
so do the answers: `Keeps c c'` says that nothing of it is lost from `c` to `c'`. LIST_INFO may
find more cards; only LOAD and FILE_TRANSFER need a closer look.

## Main definitions

* `Keeps`.

## Main results

* `keeps_executeSwitch` : commands other than LOAD and FILE_TRANSFER.
* `keeps_loadFileExit` : the end of a FILE_TRANSFER, where a file may be loaded.
* `command_eq` : after the `switch` of `m57_execute_cmd` a command is only answered.
-/

namespace M57Card.M57

open Net Bytes

/-- Nothing that a transfer rests on is lost from `c` to `c'`. -/
structure Keeps (c c' : Ctx) : Prop where
  me : c'.me = c.me
  sect : c'.sect = { c.sect with isKeytoolCmd := c'.sect.isKeytoolCmd }
  env : c'.host.env = c.host.env
  descr : c'.host.files.descr = c.host.files.descr
  content : ∀ chip, c'.host.files.content (tmpPath chip) = c.host.files.content (tmpPath chip)
  cards : ∀ i, c.host.cards i = true → c'.host.cards i = true

namespace Keeps

variable {c c₁ c₂ c₃ : Ctx}

theorem refl (c : Ctx) : Keeps c c := ⟨rfl, rfl, rfl, rfl, fun _ => rfl, fun _ => id⟩

theorem trans (h₁₂ : Keeps c₁ c₂) (h₂₃ : Keeps c₂ c₃) : Keeps c₁ c₃ where
  me := h₂₃.me.trans h₁₂.me
  sect := by rw [h₂₃.sect, h₁₂.sect]
  env := h₂₃.env.trans h₁₂.env
  descr := h₂₃.descr.trans h₁₂.descr
  content chip := (h₂₃.content chip).trans (h₁₂.content chip)
  cards i hi := h₂₃.cards i (h₁₂.cards i hi)

/-- Effects on the host that are events only. -/
theorem of_emits {P : Event → Prop} {h : Host} (he : Emits P c.host h) :
    Keeps c { c with host := h } where
  me := rfl
  sect := rfl
  env := he.env
  descr := by rw [he.files]
  content chip := by rw [he.files]
  cards i hi := by rw [he.cards, hi]

theorem emit (e : Event) (c : Ctx) : Keeps c (c.emit e) :=
  ⟨rfl, rfl, rfl, rfl, fun _ => rfl, fun _ => id⟩

theorem isRunLoadfile (h : Keeps c c₁) : c₁.sect.isRunLoadfile = c.sect.isRunLoadfile := by
  rw [h.sect]

theorem isLoadfileOk (h : Keeps c c₁) : c₁.sect.isLoadfileOk = c.sect.isLoadfileOk := by
  rw [h.sect]

theorem chipId (h : Keeps c c₁) : c₁.sect.chipId = c.sect.chipId := by
  rw [h.sect]

theorem isExitting (h : Keeps c c₁) : c₁.sect.isExitting = c.sect.isExitting := by
  rw [h.sect]

theorem file (h : Keeps c c₁) : c₁.sect.file = c.sect.file := by
  rw [h.sect]

theorem isValid (h : Keeps c c₁) {chip : ℕ} (hv : ioXdmaIsValidChipid c.host chip = true) :
    ioXdmaIsValidChipid c₁.host chip = true := h.cards _ hv

end Keeps

/-! ### Answers -/

theorem keeps_m57SendResp (cn : Conn Ctx) (code : ℤ) :
    Keeps cn.proto (m57SendResp cn code).proto := by
  by_cases hcode : 0 < code
  · rw [m57SendResp_of_pos hcode]
    exact ⟨rfl, rfl, rfl, rfl, fun _ => rfl, fun _ => id⟩
  · rw [m57SendResp, if_pos (not_lt.mp hcode)]
    exact .refl _

theorem keeps_m57LoadBitOver (result : Bool) (cn : Conn Ctx) :
    Keeps cn.proto (m57LoadBitOver result cn).proto := by
  have hverdict : Keeps cn.proto { cn.proto with
      host := (loadBitVerdict result cn.proto.sect.chipId cn.proto.host).2 } := by
    cases result with
    | false => exact .of_emits (emits_loadBitVerdict_false _ _)
    | true =>
      have hstop : Emits (fun _ => True) cn.proto.host
          (cn.proto.host.emit (.xdma (m57AssambleLoadfileCmd cn.proto.sect.chipId 0x01))) :=
        .emit trivial _
      exact .of_emits (hstop.trans ((emits_loadBitVerdict_true _ _).mono fun _ _ => trivial))
  unfold m57LoadBitOver
  dsimp only
  generalize loadBitVerdict result cn.proto.sect.chipId cn.proto.host = r at hverdict
  obtain ⟨ret, h⟩ := r
  split_ifs
  · exact .refl _
  · exact hverdict.trans (keeps_m57SendResp (assambleRespPayload cn.proto.sect.chipId ret
      { cn with proto := { cn.proto with host := h } }) CCT_RSP_LOAD)

theorem keeps_loadFailed (cn : Conn Ctx) : Keeps cn.proto (loadFailed cn).1.proto :=
  .of_emits ((emits_status rfl _).trans (emits_status rfl _))

/-! ### The end of FILE_TRANSFER -/

theorem keeps_loadingBitfile (client : ℕ) (path : Path) (c : Ctx) :
    Keeps c { c with host := (m57LoadingBitfileToFpga client path c.host).2 } := by
  have hstart (content : List UInt8) :
      Emits (fun _ => True) c.host (c.host.emit (.loadStart client path content)) :=
    .emit trivial _
  unfold m57LoadingBitfileToFpga
  cases c.host.files.content path with
  | none => exact .of_emits (hstart [])
  | some file =>
    dsimp only
    split_ifs
    · exact .of_emits (hstart file)
    · exact ⟨rfl, rfl, rfl, rfl, fun _ => rfl, fun _ => id⟩
    · exact .of_emits ((hstart file).trans ((emits_loadingLoop _ _ _ _ _).mono fun _ _ => trivial))

theorem keeps_loadFileExit (cn : Conn Ctx) : Keeps cn.proto (loadFileExit cn).1.proto := by
  have hload := keeps_loadingBitfile cn.proto.me cn.proto.sect.file.path cn.proto
  unfold loadFileExit
  dsimp only
  generalize m57LoadingBitfileToFpga cn.proto.me cn.proto.sect.file.path cn.proto.host = r at hload
  obtain ⟨ok, h⟩ := r
  split_ifs
  · exact hload
  · exact hload.trans (keeps_m57LoadBitOver true { cn with proto := { cn.proto with host := h } })
  · have hfalse := keeps_m57LoadBitOver false { cn with proto := { cn.proto with host := h } }
    exact (hload.trans hfalse).trans (keeps_loadFailed _)
  · exact keeps_loadFailed cn
  · exact .of_emits ((emits_status rfl _).trans (emits_status rfl _))

/-! ### Other commands -/

theorem tmpPath_ne_e2promPath (chip addr : ℕ) : tmpPath chip ≠ e2promPath addr := by
  intro h
  exact absurd (congrArg (fun p => p[1]?) h) (by simp [tmpPath, e2promPath])

/-- Chips have different temporary files. -/
theorem tmpPath_injective : Function.Injective tmpPath := by
  intro a b h
  have hdigits : Nat.toDigits 10 a = Nat.toDigits 10 b :=
    List.append_cancel_left (List.append_cancel_right h)
  have hvalue := congrArg (fun l => Nat.ofDigitChars 10 l 0) hdigits
  simpa [Nat.ofDigitChars_toDigits] using hvalue

theorem keeps_writeKeytoolHandle (body : List UInt8) (c : Ctx) :
    Keeps c (writeKeytoolHandle body c) := by
  unfold writeKeytoolHandle
  dsimp only
  split_ifs
  · exact .refl _
  · refine ⟨rfl, rfl, rfl, rfl, fun chip => ?_, fun _ => id⟩
    exact Function.update_of_ne (tmpPath_ne_e2promPath chip (readDataFrame body 2).pyDistAddr)
      (some ((body.drop 20).take (keytoolPayloadLen body))) c.host.files.content

theorem keeps_executeSwitch (contentLength : ℕ) {body : List UInt8} (cn : Conn Ctx)
    (hload : cardCmd (u16 body 0) ≠ .load) (htrans : cardCmd (u16 body 0) ≠ .fileTransfer) :
    Keeps cn.proto (executeSwitch contentLength body cn).1.proto := by
  unfold executeSwitch
  cases hcmd : cardCmd (u16 body 0) with
  | keyReadE2prom => exact .refl _
  | keyWriteE2prom => exact keeps_writeKeytoolHandle body cn.proto
  | beatHart => exact .refl _
  | register => exact ⟨rfl, rfl, rfl, rfl, fun _ => rfl, fun _ => id⟩
  | dataSub =>
    obtain ⟨peers, heq⟩ := dataSub_eq body cn.proto
    simp only [heq]
    exact ⟨rfl, rfl, rfl, rfl, fun _ => rfl, fun _ => id⟩
  | dataUnsub =>
    obtain ⟨peers, heq⟩ := onSubscription_eq clientHashDeleteItem body cn.proto
    simp only [dataUnsub, heq]
    exact ⟨rfl, rfl, rfl, rfl, fun _ => rfl, fun _ => id⟩
  | listInfo =>
    refine ⟨rfl, rfl, rfl, rfl, fun _ => rfl, fun i hi => ?_⟩
    exact Bool.or_eq_true_iff.mpr (.inl hi)
  | readBoardInfo => exact .refl _
  | unload =>
    simp only [executeUnload]
    split_ifs
    · exact .refl _
    · exact .of_emits (emits_m57StartUnloadBitfileFromFpga _ _)
  | load => exact absurd hcmd hload
  | fileTransfer => exact absurd hcmd htrans
  | other => exact .refl _

/-- After the `switch` a command is answered, if the code is positive and the process lives. -/
theorem command_eq (body : List UInt8) (c : Ctx) {cn : Conn Ctx} {code : ℤ}
    (hswitch : executeSwitch body.length body { proto := c.emit (.execute body) } = (cn, code)) :
    command body c =
      if cn.proto.host.exited = true ∨ code ≤ 0 then cn.proto else (m57SendResp cn code).proto := by
  unfold command m57ExecuteCmd
  simp only [hswitch]
  by_cases hcode : code ≤ 0
  · have hsend (cn' : Conn Ctx) : m57SendResp cn' code = cn' := if_pos hcode
    simp only [hcode, or_true, hsend, ite_self]
    split_ifs <;> rfl
  · have hpos : 0 ≤ code := (not_le.mp hcode).le
    simp only [hpos, if_true, hcode, or_false]
    split_ifs
    · rfl
    · rw [m57SendResp_of_pos (not_le.mp hcode), m57SendResp_of_pos (not_le.mp hcode)]

theorem keeps_command (body : List UInt8) (c : Ctx) :
    Keeps (executeSwitch body.length body { proto := c.emit (.execute body) }).1.proto
      (command body c) := by
  rw [command_eq body c rfl]
  split_ifs
  · exact .refl _
  · exact keeps_m57SendResp _ _

theorem grows_command_of_switch (body : List UInt8) (c : Ctx) :
    Grows (OfKind [.send])
      (executeSwitch body.length body { proto := c.emit (.execute body) }).1.proto.host
      (command body c).host := by
  rw [command_eq body c rfl]
  split_ifs
  · exact .refl _
  · exact grows_m57SendResp _ _

theorem exited_command (body : List UInt8) (c : Ctx) :
    (command body c).host.exited =
      (executeSwitch body.length body { proto := c.emit (.execute body) }).1.proto.host.exited := by
  rw [command_eq body c rfl]
  split_ifs
  · rfl
  · exact m57SendResp_exited _ _

end M57Card.M57
