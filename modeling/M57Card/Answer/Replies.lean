import M57Card.Load.Transfer

/-!
# The replies of commands

A reply leaves by one of two routes: through `_code` and `tcp_post_done`, after the command, or
directly from `_m57_load_bit_over`, inside FILE_TRANSFER. This file counts the frames that each
command sends and says what they are. `Replies code n c c'` says that `n` frames have been sent
from `c` to `c'` and that they are command frames with the code `code`, provided that the flag
`is_keytool_cmd` was not set in `c`.

## Main definitions

* `IsReply`, `IsKeytoolReply` : command frames with a response code, and data frames.
* `Replies` : the frames sent between two contexts.
* `Answered` : the commands that are answered.

## Main results

* `replies_command` : commands other than FILE_TRANSFER.
* `replies_fileTransfer` : FILE_TRANSFER, by what becomes of the transfer and of the load.
-/

namespace M57Card.M57

open Net Bytes

/-! ### Frames -/

/-- The type that the receiver of a frame reads. -/
def RespFrame.type (f : RespFrame) : ℕ := (m57SwapHeaderElement f.header).type

/-- A command frame whose extended header has the response code and the length of extended header
and payload. -/
structure IsReply (code : ℕ) (f : RespFrame) : Prop where
  type : f.type = M57_CMD_TYPE
  exHeader : f.exHeader = some { cmd := code, len := EX_HEADER_LEN + f.payload.length }
  len : f.header.len = HEADER_LEN + EX_HEADER_LEN + f.payload.length

/-- A data frame without command header. -/
structure IsKeytoolReply (f : RespFrame) : Prop where
  type : f.type = M57_DATA_TYPE
  exHeader : f.exHeader = none

theorem IsReply.not_isKeytoolReply {code : ℕ} {f : RespFrame} (h : IsReply code f) :
    ¬ IsKeytoolReply f := by
  intro hkey
  exact Option.some_ne_none _ (h.exHeader.symm.trans hkey.exHeader)

theorem type_respFrame (isKeytool : Bool) (prio sn code : ℕ) (data : List UInt8) :
    (respFrame isKeytool prio sn code data).type =
      if isKeytool then M57_DATA_TYPE else M57_CMD_TYPE := by
  cases isKeytool with
  | false =>
    change (2 + prio % 16 * 16) % 256 % 16 = 2
    omega
  | true =>
    change (0 + prio % 16 * 16) % 256 % 16 = 0
    omega

theorem isReply_respFrame {code : ℕ} {data : List UInt8} (hcode : code < 65536)
    (hdata : data.length < 65520) (prio sn : ℕ) :
    IsReply code (respFrame false prio sn code data) where
  type := type_respFrame false prio sn code data
  exHeader := by
    change some (M57ExHeader.mk (code % 65536) ((8 + data.length) % 65536)) = _
    rw [Nat.mod_eq_of_lt hcode, Nat.mod_eq_of_lt (by omega)]
    rfl
  len := by
    change (8 + 8 + data.length) % 65536 = 8 + 8 + data.length
    omega

theorem isKeytoolReply_respFrame (prio sn code : ℕ) (data : List UInt8) :
    IsKeytoolReply (respFrame true prio sn code data) :=
  ⟨type_respFrame true prio sn code data, rfl⟩

theorem eventsOf_send_m57SendResp {code : ℤ} (hcode : 0 < code) (cn : Conn Ctx) :
    (m57SendResp cn code).proto.host.eventsOf .send = cn.proto.host.eventsOf .send ++
      [.send cn.proto.me (respFrame cn.proto.sect.isKeytoolCmd cn.response.prio
        cn.proto.host.respSn code.toNat cn.response.data)] := by
  rw [m57SendResp_of_pos hcode]
  exact Host.eventsOf_emit .send _ _

/-! ### Frames sent between two contexts -/

/-- From `c` to `c'` the client is sent `n` frames, command frames with the code `code` unless the
key tool flag was set. -/
structure Replies (code n : ℕ) (c c' : Ctx) : Prop where
  me : c'.me = c.me
  sends : ∃ frames : List RespFrame, frames.length = n ∧
    c'.host.eventsOf .send = c.host.eventsOf .send ++ frames.map (.send c.me) ∧
    (c.sect.isKeytoolCmd = false → ∀ f ∈ frames, IsReply code f)
  keytool : c.sect.isKeytoolCmd = false → c'.sect.isKeytoolCmd = false

namespace Replies

variable {code m n : ℕ} {c c₁ c₂ c₃ : Ctx}

theorem trans (h₁₂ : Replies code m c₁ c₂) (h₂₃ : Replies code n c₂ c₃) :
    Replies code (m + n) c₁ c₃ := by
  obtain ⟨fs, hfs, hsends, hreply⟩ := h₁₂.sends
  obtain ⟨fs', hfs', hsends', hreply'⟩ := h₂₃.sends
  refine ⟨h₂₃.me.trans h₁₂.me, ⟨fs ++ fs', ?_, ?_, ?_⟩, fun h => h₂₃.keytool (h₁₂.keytool h)⟩
  · rw [List.length_append, hfs, hfs']
  · rw [hsends', hsends, h₁₂.me, List.map_append, List.append_assoc]
  · intro hflag f hf
    rcases List.mem_append.mp hf with hf | hf
    · exact hreply hflag f hf
    · exact hreply' (h₁₂.keytool hflag) f hf

/-- Steps that send nothing. -/
theorem none (hme : c₂.me = c₁.me)
    (hsends : c₂.host.eventsOf .send = c₁.host.eventsOf .send)
    (hflag : c₂.sect.isKeytoolCmd = c₁.sect.isKeytoolCmd) : Replies code 0 c₁ c₂ :=
  ⟨hme, ⟨[], rfl, by rw [hsends, List.map_nil, List.append_nil], fun _ => nofun⟩,
    fun h => hflag.trans h⟩

/-- Effects on the host that are no sends. -/
theorem of_grows {ks : List EventKind} {h : Host} (hg : Grows (OfKind ks) c.host h)
    (hks : .send ∉ ks) : Replies code 0 c { c with host := h } :=
  none rfl (hg.eventsOf_eq hks) rfl

theorem m57SendResp (cn : Conn Ctx) (hpos : 0 < code) (hcode : code < 65536)
    (hdata : cn.response.data.length < 65520) :
    Replies code 1 cn.proto (M57.m57SendResp cn code).proto := by
  have hpos' : 0 < (code : ℤ) := Int.natCast_pos.mpr hpos
  refine ⟨(keeps_m57SendResp cn code).me, ⟨[_], rfl, eventsOf_send_m57SendResp hpos' cn, ?_⟩, ?_⟩
  · intro hflag f hf
    rw [List.mem_singleton.mp hf, hflag]
    exact isReply_respFrame hcode hdata _ _
  · intro _
    rw [m57SendResp_of_pos hpos']

end Replies

/-! ### Commands other than FILE_TRANSFER -/

theorem length_regGetBoardInfo : regGetBoardInfo.length = 320 := by decide +kernel

/-- The response code of a command. -/
def replyCode : CardCmd → ℕ
  | .listInfo => 0x17
  | .readBoardInfo => 0x13
  | .unload => 0x08
  | .load | .fileTransfer => 0x06
  | .keyReadE2prom => 0x01
  | _ => 0

/-- Whether a command is answered, in terms of the context before it. -/
def answered (c : Ctx) (body : List UInt8) : Bool :=
  match cardCmd (u16 body 0) with
  | .listInfo | .readBoardInfo | .keyReadE2prom => true
  | .unload | .load => !ioXdmaIsValidChipid c.host (u16 body 8)
  | .fileTransfer => !decide (Continues c body)
  | _ => false

variable {c : Ctx} {body : List UInt8}

section Switch

variable {code n : ℕ} {cn : Conn Ctx} {ret : ℤ}

/-- A command without a positive code sends what its `switch` sends. -/
theorem replies_of_switch_none
    (hswitch : executeSwitch body.length body { proto := c.emit (.execute body) } = (cn, ret))
    (hcn : Replies code n c cn.proto) (hnone : cn.proto.host.exited = true ∨ ret ≤ 0) :
    Replies code n c (command body c) := by
  rwa [command_eq body c hswitch, if_pos hnone]

/-- A positive code adds one frame. -/
theorem replies_of_switch_code
    (hswitch : executeSwitch body.length body { proto := c.emit (.execute body) } =
      (cn, (code : ℤ)))
    (hcn : Replies code n c cn.proto) (hpos : 0 < code) (hcode : code < 65536)
    (hdata : cn.response.data.length < 65520) (hlive : cn.proto.host.exited = false) :
    Replies code (n + 1) c (command body c) := by
  have hans : ¬ (cn.proto.host.exited = true ∨ (code : ℤ) ≤ 0) := by
    rintro (hexit | hneg)
    · exact Bool.noConfusion (hlive.symm.trans hexit)
    · omega
  rw [command_eq body c hswitch, if_neg hans]
  exact hcn.trans (.m57SendResp cn hpos hcode hdata)

end Switch

/-- What the `switch` leaves alone for commands other than FILE_TRANSFER. -/
theorem executeSwitch_frame (contentLength : ℕ) (cn : Conn Ctx)
    (htrans : cardCmd (u16 body 0) ≠ .fileTransfer) :
    (executeSwitch contentLength body cn).1.proto.me = cn.proto.me ∧
      (executeSwitch contentLength body cn).1.proto.sect.isKeytoolCmd =
        cn.proto.sect.isKeytoolCmd := by
  unfold executeSwitch
  cases hcmd : cardCmd (u16 body 0) with
  | keyReadE2prom | beatHart | register | listInfo | readBoardInfo | other => exact ⟨rfl, rfl⟩
  | keyWriteE2prom =>
    simp only [writeKeytoolHandle]
    split_ifs <;> exact ⟨rfl, rfl⟩
  | dataSub =>
    obtain ⟨peers, heq⟩ := dataSub_eq body cn.proto
    simp only [heq]
    exact ⟨rfl, rfl⟩
  | dataUnsub =>
    obtain ⟨peers, heq⟩ := onSubscription_eq clientHashDeleteItem body cn.proto
    simp only [dataUnsub, heq]
    exact ⟨rfl, rfl⟩
  | unload =>
    simp only [executeUnload]
    split_ifs <;> exact ⟨rfl, rfl⟩
  | load =>
    obtain ⟨hme, -, -, hflag⟩ := openTmpFile_frame (cn.proto.onSect (loadSection body))
    simp only [executeLoad]
    split_ifs
    · exact ⟨rfl, rfl⟩
    · exact ⟨hme, hflag⟩
    · exact ⟨hme, hflag⟩
  | fileTransfer => exact absurd hcmd htrans

/-- The `switch` leaves the response code of the command for an answer, and `-1` for none. -/
theorem executeSwitch_code (contentLength : ℕ) (cn : Conn Ctx)
    (htrans : cardCmd (u16 body 0) ≠ .fileTransfer) :
    (executeSwitch contentLength body cn).2 =
      if answered cn.proto body then (replyCode (cardCmd (u16 body 0)) : ℤ) else -1 := by
  unfold executeSwitch answered
  cases hcmd : cardCmd (u16 body 0) with
  | keyReadE2prom | listInfo | readBoardInfo => rfl
  | keyWriteE2prom | beatHart | register | dataSub | dataUnsub | other => rfl
  | unload =>
    simp only [executeUnload]
    cases ioXdmaIsValidChipid cn.proto.host (u16 body 8) with
    | false => rfl
    | true => rfl
  | load =>
    have hcard : ioXdmaIsValidChipid (cn.proto.onSect (loadSection body)).host (u16 body 8) =
        ioXdmaIsValidChipid cn.proto.host (u16 body 8) := rfl
    simp only [executeLoad, hcard]
    cases ioXdmaIsValidChipid cn.proto.host (u16 body 8) with
    | false => rfl
    | true =>
      simp only [Bool.true_eq_false, Bool.not_true, Bool.false_eq_true, if_false]
      split_ifs <;> rfl
  | fileTransfer => exact absurd hcmd htrans

/-- A command that is answered ends no process, and its response fits into a frame. -/
theorem executeSwitch_response (contentLength : ℕ) (cn : Conn Ctx)
    (htrans : cardCmd (u16 body 0) ≠ .fileTransfer)
    (hkey : cardCmd (u16 body 0) ≠ .keyReadE2prom) (hans : answered cn.proto body = true) :
    (executeSwitch contentLength body cn).1.proto.host.exited = cn.proto.host.exited ∧
      (executeSwitch contentLength body cn).1.response.data.length < 65520 := by
  unfold answered at hans
  unfold executeSwitch
  cases hcmd : cardCmd (u16 body 0) with
  | keyReadE2prom => exact absurd hcmd hkey
  | fileTransfer => exact absurd hcmd htrans
  | keyWriteE2prom | beatHart | register | dataSub | dataUnsub | other =>
    rw [hcmd] at hans
    exact Bool.noConfusion hans
  | listInfo => exact ⟨rfl, show 32 < 65520 by decide⟩
  | readBoardInfo =>
    refine ⟨rfl, ?_⟩
    simp only [executeReadBoardInfo, List.length_append, length_le16, length_le32,
      length_regGetBoardInfo]
    decide
  | unload =>
    rw [hcmd] at hans
    have hv : ioXdmaIsValidChipid cn.proto.host (u16 body 8) = false := by simpa using hans
    simp only [executeUnload, hv, if_true]
    exact ⟨rfl, show 6 < 65520 by decide⟩
  | load =>
    rw [hcmd] at hans
    have hv : ioXdmaIsValidChipid cn.proto.host (u16 body 8) = false := by simpa using hans
    simp only [executeLoad]
    rw [if_pos (by exact hv)]
    exact ⟨rfl, show 6 < 65520 by decide⟩

/-- Commands other than FILE_TRANSFER and the key tool's read send one frame with the code of the
command, or none. -/
theorem replies_command (body : List UInt8) (c : Ctx)
    (htrans : cardCmd (u16 body 0) ≠ .fileTransfer)
    (hkey : cardCmd (u16 body 0) ≠ .keyReadE2prom) (hlive : c.host.exited = false) :
    Replies (replyCode (cardCmd (u16 body 0))) (if answered c body then 1 else 0) c
      (command body c) := by
  set cn₀ : Conn Ctx := { proto := c.emit (.execute body) }
  have hsends := (grows_executeSwitch_of_ne body.length htrans cn₀).eventsOf_eq
    (show .send ∉ _ by decide)
  obtain ⟨hme, hflag⟩ := executeSwitch_frame body.length cn₀ htrans
  have hquiet : Replies (replyCode (cardCmd (u16 body 0))) 0 c
      (executeSwitch body.length body cn₀).1.proto :=
    .none hme (hsends.trans (eventsOf_emit_execute body c (by decide))) hflag
  have hcode := executeSwitch_code body.length cn₀ htrans
  have hsame : answered cn₀.proto body = answered c body := by
    unfold answered
    cases hcmd : cardCmd (u16 body 0) with
    | fileTransfer => exact absurd hcmd htrans
    | _ => rfl
  rw [← hsame]
  cases hans : answered cn₀.proto body with
  | false =>
    rw [hans, if_neg Bool.false_ne_true] at hcode
    have hswitch : executeSwitch body.length body cn₀ =
        ((executeSwitch body.length body cn₀).1, -1) := Prod.ext rfl hcode
    exact replies_of_switch_none hswitch hquiet (.inr (by decide))
  | true =>
    rw [hans, if_pos rfl] at hcode
    obtain ⟨hexited, hdata⟩ := executeSwitch_response body.length cn₀ htrans hkey hans
    have hpos : 0 < replyCode (cardCmd (u16 body 0)) ∧
        replyCode (cardCmd (u16 body 0)) < 65536 := by
      unfold answered at hans
      cases hcmd : cardCmd (u16 body 0) with
      | keyReadE2prom | fileTransfer | listInfo | readBoardInfo | unload | load => decide
      | keyWriteE2prom | beatHart | register | dataSub | dataUnsub | other =>
        rw [hcmd] at hans
        exact Bool.noConfusion hans
    have hswitch : executeSwitch body.length body cn₀ =
        ((executeSwitch body.length body cn₀).1, (replyCode (cardCmd (u16 body 0)) : ℤ)) :=
      Prod.ext rfl hcode
    exact replies_of_switch_code hswitch hquiet hpos.1 hpos.2 hdata (hexited.trans hlive)

/-! ### FILE_TRANSFER -/

theorem replies_m57LoadBitOver (result : Bool) (cn : Conn Ctx)
    (hexit : cn.proto.sect.isExitting = false) :
    Replies 6 1 cn.proto (m57LoadBitOver result cn).proto := by
  have hverdict : Replies 6 0 cn.proto { cn.proto with
      host := (loadBitVerdict result cn.proto.sect.chipId cn.proto.host).2 } :=
    .of_grows (grows_loadBitVerdict result _ _) (by decide)
  unfold m57LoadBitOver
  rw [if_neg (by rw [hexit]; decide)]
  dsimp only
  generalize loadBitVerdict result cn.proto.sect.chipId cn.proto.host = r at hverdict
  obtain ⟨ret, h⟩ := r
  exact hverdict.trans (Replies.m57SendResp
    (assambleRespPayload cn.proto.sect.chipId ret { cn with proto := { cn.proto with host := h } })
    (show 0 < 6 by decide) (by decide) (show 6 < 65520 by decide))

theorem exited_m57LoadBitOver (result : Bool) (cn : Conn Ctx) :
    (m57LoadBitOver result cn).proto.host.exited = cn.proto.host.exited := by
  have hverdict : (loadBitVerdict result cn.proto.sect.chipId cn.proto.host).2.exited =
      cn.proto.host.exited := by
    cases result with
    | false => exact (emits_loadBitVerdict_false _ _).exited
    | true => exact (emits_loadBitVerdict_true _ _).exited
  unfold m57LoadBitOver
  split_ifs
  · rfl
  · exact (m57SendResp_exited _ _).trans hverdict

/-- The number of frames that FILE_TRANSFER sends when its end is reached in the context `c`: none
while the transfer goes on, one when it is given up, and for a load one, two when the file cannot
be opened, and none when the process ends. -/
def fileTransferReplies (c : Ctx) : ℕ :=
  if c.sect.isRunLoadfile = false then
    if c.sect.isLoadfileOk ∧ ioXdmaIsValidChipid c.host c.sect.chipId then
      let (loaded, h) := m57LoadingBitfileToFpga c.me c.sect.file.path c.host
      if h.exited then 0 else if loaded then 1 else 2
    else 1
  else 0

theorem replies_received (code : ℕ) (body : List UInt8) (c : Ctx) :
    Replies code 0 c (received body c) := by
  have hsame := sameCard_received body c
  refine .none hsame.me ?_ hsame.isKeytoolCmd
  rw [← eventsOf_emit_execute body c (show EventKind.send ≠ .frame by decide), received]
  split_ifs
  · rfl
  · exact (grows_receiveChunk _ _ _).eventsOf_eq (by decide)

theorem replies_loadFailed (cn : Conn Ctx) : Replies 6 0 cn.proto (loadFailed cn).1.proto :=
  .of_grows ((emits_status rfl _).trans (emits_status rfl _)).grows (by decide)

/-- FILE_TRANSFER sends the frames that its end calls for. -/
theorem replies_fileTransfer (hcmd : cardCmd (u16 body 0) = .fileTransfer)
    (hexit : c.sect.isExitting = false) (hlive : c.host.exited = false) :
    Replies 6 (fileTransferReplies (received body c)) c (command body c) := by
  have hrecv := replies_received 6 body c
  have hsame := sameCard_received body c
  have hexit' := hsame.isExitting.trans hexit
  have hlive' := hsame.exited.trans hlive
  have hswitch := executeSwitch_fileTransfer hcmd c
  generalize received body c = r at hrecv hexit' hlive' hswitch
  unfold loadFileExit at hswitch
  unfold fileTransferReplies
  by_cases hrun : r.sect.isRunLoadfile = false
  · by_cases hok : r.sect.isLoadfileOk = true ∧
        ioXdmaIsValidChipid r.host r.sect.chipId = true
    · simp only [hrun, hok, and_self, if_true] at hswitch ⊢
      have hgrows := grows_loadingBitfile r.me r.sect.file.path r.host
      generalize m57LoadingBitfileToFpga r.me r.sect.file.path r.host = load at hswitch hgrows
      obtain ⟨loaded, h⟩ := load
      have hload : Replies 6 0 c { r with host := h } := hrecv.trans (.of_grows hgrows (by decide))
      by_cases hended : h.exited = true
      · simp only [hended, if_true] at hswitch ⊢
        exact replies_of_switch_none hswitch hload (.inl hended)
      have halive : h.exited = false := Bool.eq_false_iff.mpr hended
      cases loaded with
      | true =>
        simp only [halive, Bool.false_eq_true, if_false, if_true] at hswitch ⊢
        have hover := replies_m57LoadBitOver true { proto := { r with host := h } } hexit'
        exact replies_of_switch_none hswitch (hload.trans hover) (.inr (by decide))
      | false =>
        simp only [halive, Bool.false_eq_true, if_false] at hswitch ⊢
        have hover := replies_m57LoadBitOver false { proto := { r with host := h } } hexit'
        have hfailed := (hload.trans hover).trans (replies_loadFailed _)
        exact replies_of_switch_code hswitch hfailed (by decide) (by decide)
          (show 6 < 65520 by decide)
          ((exited_m57LoadBitOver false { proto := { r with host := h } }).trans halive)
    · simp only [hrun, hok, if_true, if_false] at hswitch ⊢
      have hfailed : Replies 6 0 c _ := hrecv.trans (replies_loadFailed { proto := r })
      exact replies_of_switch_code hswitch hfailed (by decide) (by decide)
        (show 6 < 65520 by decide) hlive'
  · simp only [hrun] at hswitch ⊢
    refine replies_of_switch_none hswitch (hrecv.trans (n := 0) ?_) (.inr (by decide))
    exact .of_grows ((emits_status rfl _).trans (emits_status rfl _)).grows (by decide)

/-! ### Frames of the key tool and data frames -/

/-- A read of the key tool is answered by one data frame. -/
theorem sends_keyRead (rest : List UInt8) (hlive : c.host.exited = false) :
    ∃ f, IsKeytoolReply f ∧ ((Input.keyRead rest).effect c).host.eventsOf .send =
      c.host.eventsOf .send ++ [.send c.me f] := by
  set body := le16 CCT_KEY_READ_E2PROM ++ rest with hbody
  set c₁ := c.onSect fun s => { s with isKeytoolCmd := true } with hc₁
  have hswitch : executeSwitch body.length body { proto := c₁.emit (.execute body) } =
      (assambleKeytoolResp body { proto := c₁.emit (.execute body) }, 1) := by
    simp only [executeSwitch, hbody, cardCmd_keyRead]
  have hans : ¬ ((assambleKeytoolResp body { proto := c₁.emit (.execute body) }).proto.host.exited =
      true ∨ (1 : ℤ) ≤ 0) := by
    rintro (hexit | hneg)
    · exact Bool.noConfusion (hlive.symm.trans hexit)
    · exact absurd hneg (by decide)
  rw [Input.effect, ← hbody, ← hc₁, command_eq body c₁ hswitch, if_neg hans,
    eventsOf_send_m57SendResp (by decide)]
  set response := (assambleKeytoolResp body { proto := c₁.emit (.execute body) }).response
  refine ⟨respFrame true response.prio c.host.respSn 1 response.data,
    isKeytoolReply_respFrame _ _ _ _, ?_⟩
  exact congrArg (· ++ [Event.send c.me (respFrame true response.prio c.host.respSn 1
    response.data)]) (eventsOf_emit_execute body c₁ (by decide))

/-- A write of the key tool is not answered. -/
theorem sends_keyWrite (rest : List UInt8) (hlive : c.host.exited = false) :
    ((Input.keyWrite rest).effect c).host.eventsOf .send = c.host.eventsOf .send := by
  have hcmd := cardCmd_keyWrite rest
  have hreplies := replies_command (le16 CCT_KEY_WRITE_E2PROM ++ rest)
    (c.onSect fun s => { s with isKeytoolCmd := true }) (by rw [hcmd]; decide)
    (by rw [hcmd]; decide) hlive
  obtain ⟨frames, hlen, hsends, -⟩ := hreplies.sends
  have hans : answered (c.onSect fun s => { s with isKeytoolCmd := true })
      (le16 CCT_KEY_WRITE_E2PROM ++ rest) = false := by simp only [answered, hcmd]
  rw [hans, if_neg (by decide)] at hlen
  rw [Input.effect, hsends, List.length_eq_zero_iff.mp hlen, List.map_nil, List.append_nil]
  rfl

/-- A data frame is not answered. -/
theorem sends_data (frame : List UInt8) (c : Ctx) :
    ((Input.data frame).effect c).host.eventsOf .send = c.host.eventsOf .send := by
  have hgrows : Grows (OfKind [.frame, .xdma]) c.host (m57WriteDataToFpga frame c.host) :=
    .trans (.emit (by simp [OfKind, Event.kind]) _) (.emit (by simp [OfKind, Event.kind]) _)
  exact hgrows.eventsOf_eq (by decide)

end M57Card.M57
