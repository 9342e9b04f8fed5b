import M57Card.Protocol.Server

/-!
# What the operations add to the trace

The statements about runs speak of events. This file says for each operation which events it can
add and what of the host it leaves alone, so that later proofs do not open the operations again.

`Grows P h h'` says that the trace of `h'` extends the one of `h` by events that satisfy `P`;
`Emits P h h'` says in addition that the environment, the files, the cards and the life of the
process are the same.

## Main definitions

* `Grows`, `Emits`.
* `EventKind`, `Event.kind`, `OfKind` : kinds of events.

## Main results

* `emits_loadBitVerdict_true`, `emits_loadingLoop` : what a load writes.
* `grows_executeSwitch` : no command executes or forwards another frame.
-/

namespace M57Card.M57

open Net Bytes

/-- The trace grows by events that satisfy `P`. -/
def Grows (P : Event → Prop) (h h' : Host) : Prop :=
  ∃ es, h'.trace = h.trace ++ es ∧ ∀ e ∈ es, P e

/-- The trace grows by events that satisfy `P`, and nothing else that the code reads changes. -/
structure Emits (P : Event → Prop) (h h' : Host) : Prop where
  grows : Grows P h h'
  env : h'.env = h.env
  files : h'.files = h.files
  cards : h'.cards = h.cards
  exited : h'.exited = h.exited

namespace Grows

variable {P Q : Event → Prop} {h₁ h₂ h₃ : Host}

theorem of_trace_eq (heq : h₂.trace = h₁.trace) : Grows P h₁ h₂ :=
  ⟨[], by rw [heq, List.append_nil], by simp⟩

theorem refl (h : Host) : Grows P h h := of_trace_eq rfl

theorem trans (h12 : Grows P h₁ h₂) (h23 : Grows P h₂ h₃) : Grows P h₁ h₃ := by
  obtain ⟨es, hes, hP⟩ := h12
  obtain ⟨es', hes', hP'⟩ := h23
  refine ⟨es ++ es', by rw [hes', hes, List.append_assoc], ?_⟩
  intro e he
  rcases List.mem_append.mp he with he | he
  · exact hP e he
  · exact hP' e he

theorem mono (hPQ : ∀ e, P e → Q e) (hg : Grows P h₁ h₂) : Grows Q h₁ h₂ := by
  obtain ⟨es, hes, hP⟩ := hg
  exact ⟨es, hes, fun e he => hPQ e (hP e he)⟩

theorem emit {e : Event} (he : P e) (h : Host) : Grows P h (h.emit e) :=
  ⟨[e], rfl, by simpa using he⟩

/-- The new events satisfy `P`. -/
theorem newEvents (hg : Grows P h₁ h₂) : ∀ e ∈ newEvents h₁ h₂, P e := by
  obtain ⟨es, hes, hP⟩ := hg
  rwa [newEvents_of_append hes]

end Grows

namespace Emits

variable {P Q : Event → Prop} {h₁ h₂ h₃ : Host}

theorem refl (h : Host) : Emits P h h := ⟨.refl h, rfl, rfl, rfl, rfl⟩

theorem trans (h12 : Emits P h₁ h₂) (h23 : Emits P h₂ h₃) : Emits P h₁ h₃ :=
  ⟨h12.grows.trans h23.grows, h23.env.trans h12.env, h23.files.trans h12.files,
    h23.cards.trans h12.cards, h23.exited.trans h12.exited⟩

theorem mono (hPQ : ∀ e, P e → Q e) (he : Emits P h₁ h₂) : Emits Q h₁ h₂ :=
  ⟨he.grows.mono hPQ, he.env, he.files, he.cards, he.exited⟩

theorem emit {e : Event} (he : P e) (h : Host) : Emits P h (h.emit e) :=
  ⟨.emit he h, rfl, rfl, rfl, rfl⟩

end Emits

/-! ### Kinds of events -/

/-- The kinds of events. -/
inductive EventKind where
  /-- what becomes of a received frame -/
  | frame
  /-- writes to the FPGA -/
  | xdma
  /-- files opened or written by name -/
  | file
  /-- bytes stored through a descriptor -/
  | write
  /-- starts of a load -/
  | loadStart
  /-- frames sent to a client -/
  | send
  /-- registers and states of cards -/
  | status
  deriving DecidableEq

/-- The kind of an event. -/
def Event.kind : Event → EventKind
  | .execute _ | .forward _ => .frame
  | .xdma _ => .xdma
  | .openFile _ _ | .e2promWrite _ _ _ => .file
  | .write _ _ => .write
  | .loadStart _ _ _ => .loadStart
  | .send _ _ => .send
  | .readReg _ | .loadbitResult _ _ | .linkResult _ _ | .deviceStatus _ _ | .xdmaEnable _ => .status

/-- Events of one of the given kinds. -/
def OfKind (ks : List EventKind) (e : Event) : Prop := e.kind ∈ ks

theorem OfKind.mono {ks ks' : List EventKind} (hsub : ks ⊆ ks') (e : Event) (he : OfKind ks e) :
    OfKind ks' e := hsub he

/-- The events of kind `k` so far. -/
def Host.eventsOf (k : EventKind) (h : Host) : List Event := h.trace.filter fun e => e.kind = k

/-- A trace that grows by events of other kinds has the same events of kind `k`. -/
theorem Grows.eventsOf_eq {ks : List EventKind} {k : EventKind} {h₁ h₂ : Host}
    (hg : Grows (OfKind ks) h₁ h₂) (hk : k ∉ ks) : h₂.eventsOf k = h₁.eventsOf k := by
  obtain ⟨es, hes, hks⟩ := hg
  have hnil : es.filter (fun e => e.kind = k) = [] := by
    refine List.filter_eq_nil_iff.mpr fun e he => ?_
    have hne : e.kind ≠ k := fun heq => hk (heq ▸ hks e he)
    simpa using hne
  rw [Host.eventsOf, hes, List.filter_append, hnil, List.append_nil]
  rfl

theorem Host.eventsOf_emit (k : EventKind) (e : Event) (h : Host) :
    (h.emit e).eventsOf k = h.eventsOf k ++ if e.kind = k then [e] else [] := by
  rw [Host.eventsOf, Host.emit, List.filter_append, List.filter_cons, List.filter_nil]
  simp only [decide_eq_true_eq]
  rfl

/-- The new events of kind `k` are the ones that have come to the events of kind `k`. -/
theorem Grows.mem_of_newEvents {P : Event → Prop} {h₁ h₂ : Host} {l : List Event} {e : Event}
    (hg : Grows P h₁ h₂) (hl : h₂.eventsOf e.kind = h₁.eventsOf e.kind ++ l)
    (he : e ∈ M57.newEvents h₁ h₂) : e ∈ l := by
  obtain ⟨es, hes, -⟩ := hg
  rw [newEvents_of_append hes] at he
  rw [Host.eventsOf, hes, List.filter_append] at hl
  rw [← List.append_cancel_left hl]
  exact List.mem_filter.mpr ⟨he, by simp⟩

theorem Grows.mem_newEvents {P : Event → Prop} {h₁ h₂ : Host} {l : List Event} {e : Event}
    (hg : Grows P h₁ h₂) (hl : h₂.eventsOf e.kind = h₁.eventsOf e.kind ++ l) (he : e ∈ l) :
    e ∈ M57.newEvents h₁ h₂ := by
  obtain ⟨es, hes, -⟩ := hg
  rw [Host.eventsOf, hes, List.filter_append] at hl
  rw [newEvents_of_append hes]
  rw [← List.append_cancel_left hl] at he
  exact (List.mem_filter.mp he).1

/-! ### The channel to the FPGA and the registers -/

theorem emits_status {e : Event} (he : e.kind = .status) (h : Host) :
    Emits (OfKind [.status]) h (h.emit e) := .emit (by simp [OfKind, he]) h

theorem emits_xdma (data : List UInt8) (h : Host) :
    Emits (OfKind [.xdma]) h (h.writeXdmaData data).2 := .emit (by simp [OfKind, Event.kind]) h

theorem emits_regGetLoadResult (id : ℕ) (h : Host) :
    Emits (OfKind [.status]) h (regGetLoadResult id h).2 := by
  unfold regGetLoadResult
  split
  · exact .refl h
  · exact emits_status rfl h

theorem emits_regGetUnloadResult (id : ℕ) (h : Host) :
    Emits (OfKind [.status]) h (regGetUnloadResult id h).2 := by
  unfold regGetUnloadResult
  split
  · exact .refl h
  · exact emits_status rfl h

theorem emits_regGetLinkResult (id : ℕ) (h : Host) :
    Emits (OfKind [.status]) h (regGetLinkResult id h).2 := by
  unfold regGetLinkResult
  split
  · exact .refl h
  · exact emits_status rfl h

theorem emits_m57StartUnloadBitfileFromFpga (chip : ℕ) (h : Host) :
    Emits (fun e => OfKind [.status] e ∨ e = .xdma (m57AssambleLoadfileCmd chip 0x02)) h
      (m57StartUnloadBitfileFromFpga chip h) := by
  unfold m57StartUnloadBitfileFromFpga
  dsimp only
  have hw : Emits (fun e => OfKind [.status] e ∨ e = .xdma (m57AssambleLoadfileCmd chip 0x02)) h
      (regGetUnloadResult chip (h.writeXdmaData (m57AssambleLoadfileCmd chip 0x02)).2).2 :=
    .trans (.emit (.inr rfl) h) ((emits_regGetUnloadResult chip _).mono fun e he => .inl he)
  split_ifs
  · exact hw.trans ((emits_status rfl _).mono fun e he => .inl he)
  · exact hw

theorem emits_linkVerdict (chip : ℕ) (h : Host) :
    Emits (OfKind [.status]) h (linkVerdict chip h).2 := by
  unfold linkVerdict
  dsimp only
  split_ifs
  · exact (emits_regGetLinkResult chip h).trans (emits_status rfl _)
  · exact (emits_regGetLinkResult chip h).trans (.trans (emits_status rfl _) (emits_status rfl _))

/-- A failed load changes states only. -/
theorem emits_loadBitVerdict_false (chip : ℕ) (h : Host) :
    Emits (OfKind [.status]) h (loadBitVerdict false chip h).2 :=
  .trans (emits_status rfl _) (emits_status rfl _)

/-- After a load that was performed comes the stop command and then only states change. -/
theorem emits_loadBitVerdict_true (chip : ℕ) (h : Host) :
    Emits (OfKind [.status]) (h.emit (.xdma (m57AssambleLoadfileCmd chip 0x01)))
      (loadBitVerdict true chip h).2 := by
  unfold loadBitVerdict m57StopLoadBitfileToFpga
  simp only [Bool.true_eq_false, if_false]
  split_ifs with hstop hload hlink hret hret'
  · exact .refl _
  · exact (emits_regGetLoadResult chip _).trans (.trans (emits_status rfl _) (emits_status rfl _))
  · exact ((emits_regGetLoadResult chip _).trans (emits_linkVerdict chip _)).trans
      (.trans (emits_status rfl _) (emits_status rfl _))
  · exact (emits_regGetLoadResult chip _).trans (emits_linkVerdict chip _)
  · exact (emits_regGetLoadResult chip _).trans (.trans (emits_status rfl _) (emits_status rfl _))
  · exact emits_regGetLoadResult chip _

theorem emits_loadingLoop (k : ℕ) (rest : List UInt8) (total : ℤ) (reminder : ℕ) (h : Host) :
    Emits (OfKind [.xdma]) h (loadingLoop k rest total reminder h).2.2 := by
  induction k generalizing rest total reminder h with
  | zero => exact .refl h
  | succ k ih =>
    unfold loadingLoop
    dsimp only
    split_ifs
    · exact .refl h
    · exact emits_xdma _ h
    · exact (emits_xdma _ h).trans (ih _ _ _ _)

/-! ### Commands -/

theorem grows_m57SendResp (cn : Conn Ctx) (code : ℤ) :
    Grows (OfKind [.send]) cn.proto.host (m57SendResp cn code).proto.host := by
  by_cases hcode : 0 < code
  · rw [m57SendResp_of_pos hcode]
    exact ⟨_, rfl, by simp [OfKind, Event.kind]⟩
  · rw [m57SendResp, if_pos (not_lt.mp hcode)]
    exact .refl _

/-- An answer does not end the process. -/
theorem m57SendResp_exited (cn : Conn Ctx) (code : ℤ) :
    (m57SendResp cn code).proto.host.exited = cn.proto.host.exited := by
  by_cases hcode : 0 < code
  · rw [m57SendResp_of_pos hcode]
    rfl
  · rw [m57SendResp, if_pos (not_lt.mp hcode)]

theorem grows_loadingBitfile (client : ℕ) (path : Path) (h : Host) :
    Grows (OfKind [.loadStart, .xdma]) h (m57LoadingBitfileToFpga client path h).2 := by
  have hstart (content : List UInt8) :
      Grows (OfKind [.loadStart, .xdma]) h (h.emit (.loadStart client path content)) :=
    .emit (by simp [OfKind, Event.kind]) h
  unfold m57LoadingBitfileToFpga
  cases h.files.content path with
  | none => exact hstart []
  | some file =>
    dsimp only
    split_ifs
    · exact hstart file
    · exact (hstart file).trans (.of_trace_eq rfl)
    · exact (hstart file).trans ((emits_loadingLoop _ _ _ _ _).grows.mono (OfKind.mono (by decide)))

theorem grows_loadBitVerdict (result : Bool) (chip : ℕ) (h : Host) :
    Grows (OfKind [.xdma, .status]) h (loadBitVerdict result chip h).2 := by
  cases result with
  | false => exact (emits_loadBitVerdict_false chip h).grows.mono (OfKind.mono (by decide))
  | true =>
    have hstop : Grows (OfKind [.xdma, .status]) h
        (h.emit (.xdma (m57AssambleLoadfileCmd chip 0x01))) :=
      .emit (by simp [OfKind, Event.kind]) h
    exact hstop.trans ((emits_loadBitVerdict_true chip h).grows.mono (OfKind.mono (by decide)))

theorem grows_m57LoadBitOver (result : Bool) (cn : Conn Ctx) :
    Grows (OfKind [.xdma, .status, .send]) cn.proto.host (m57LoadBitOver result cn).proto.host := by
  unfold m57LoadBitOver
  split_ifs
  · exact .refl _
  · have hverdict := grows_loadBitVerdict result cn.proto.sect.chipId cn.proto.host
    exact (hverdict.mono (OfKind.mono (by decide))).trans
      ((grows_m57SendResp _ _).mono (OfKind.mono (by decide)))

theorem grows_loadFailed (cn : Conn Ctx) :
    Grows (OfKind [.status]) cn.proto.host (loadFailed cn).1.proto.host :=
  ((emits_status rfl _).trans (emits_status rfl _)).grows

theorem grows_loadFileExit (cn : Conn Ctx) :
    Grows (OfKind [.loadStart, .xdma, .status, .send]) cn.proto.host
      (loadFileExit cn).1.proto.host := by
  have hfailed (cn : Conn Ctx) : Grows (OfKind [.loadStart, .xdma, .status, .send]) cn.proto.host
      (loadFailed cn).1.proto.host := (grows_loadFailed cn).mono (OfKind.mono (by decide))
  have hload : Grows (OfKind [.loadStart, .xdma, .status, .send]) cn.proto.host
      (m57LoadingBitfileToFpga cn.proto.me cn.proto.sect.file.path cn.proto.host).2 :=
    (grows_loadingBitfile _ _ _).mono (OfKind.mono (by decide))
  have hover (result : Bool) (cn : Conn Ctx) :
      Grows (OfKind [.loadStart, .xdma, .status, .send]) cn.proto.host
        (m57LoadBitOver result cn).proto.host :=
    (grows_m57LoadBitOver result cn).mono (OfKind.mono (by decide))
  unfold loadFileExit
  dsimp only
  generalize m57LoadingBitfileToFpga cn.proto.me cn.proto.sect.file.path cn.proto.host = r at hload
  obtain ⟨ok, h⟩ := r
  split_ifs
  · exact hload
  · exact hload.trans (hover true { cn with proto := { cn.proto with host := h } })
  · have hfalse := hload.trans (hover false { cn with proto := { cn.proto with host := h } })
    exact hfalse.trans (hfailed _)
  · exact hfailed cn
  · exact ((emits_status rfl _).trans (emits_status rfl _)).grows.mono (OfKind.mono (by decide))

theorem grows_writeFile (fd : ℕ) (data : List UInt8) (h : Host) :
    Grows (OfKind [.write]) h (h.writeFile fd data).2 := by
  unfold Host.writeFile
  split
  · exact .refl h
  · split
    · exact .refl h
    · exact ⟨_, rfl, by simp [OfKind, Event.kind]⟩

theorem grows_recvFileOver (file : List UInt8) (fileLen : ℤ) (c : Ctx) :
    Grows (OfKind [.write]) c.host (recvFileOver file fileLen c).2.host := by
  unfold recvFileOver
  dsimp only
  split_ifs
  · exact .refl _
  all_goals first | exact .refl _ | exact grows_writeFile _ _ _

theorem closeTransfer_trace (ok : Bool) (c : Ctx) :
    (closeTransfer ok c).host.trace = c.host.trace := by
  unfold closeTransfer
  dsimp only
  split_ifs <;> rfl

theorem grows_receiveChunk (contentLength : ℕ) (body : List UInt8) (c : Ctx) :
    Grows (OfKind [.write]) c.host (receiveChunk contentLength body c).host := by
  have hrecv := grows_recvFileOver ((body.drop 12).take ((contentLength : ℤ) - 12).toNat)
    ((contentLength : ℤ) - 12) (c.onSect fun s =>
      { s with file := { s.file with sn := nextSn (i16 (u16 body 10)) s.file } })
  unfold receiveChunk
  dsimp only
  split_ifs
  · exact .refl _
  · exact hrecv.trans (.of_trace_eq (closeTransfer_trace true _))
  · exact hrecv.trans (.of_trace_eq (closeTransfer_trace false _))
  · exact hrecv

theorem createTmpPath_trace (c : Ctx) : (createTmpPath c).host.trace = c.host.trace := by
  unfold createTmpPath
  dsimp only
  split_ifs <;> rfl

theorem grows_openTmpFile (c : Ctx) : Grows (OfKind [.file]) c.host (openTmpFile c).host := by
  unfold openTmpFile
  split_ifs
  · exact .of_trace_eq rfl
  · exact ⟨_, rfl, by simp [OfKind, Event.kind]⟩

theorem grows_executeLoad (body : List UInt8) (cn : Conn Ctx) :
    Grows (OfKind [.file, .xdma]) cn.proto.host (executeLoad body cn).1.proto.host := by
  have hopen : Grows (OfKind [.file, .xdma]) cn.proto.host
      (openTmpFile (createTmpPath (cn.proto.onSect (loadSection body)))).host := by
    have htmp := createTmpPath_trace (cn.proto.onSect (loadSection body))
    exact .trans (.of_trace_eq htmp) ((grows_openTmpFile _).mono (OfKind.mono (by decide)))
  unfold executeLoad
  dsimp only
  split_ifs
  · exact .refl _
  · exact hopen
  · refine hopen.trans (Grows.mono ?_ (emits_xdma _ _).grows)
    exact OfKind.mono (by decide)

theorem grows_executeUnload (body : List UInt8) (cn : Conn Ctx) :
    Grows (OfKind [.xdma, .status]) cn.proto.host (executeUnload body cn).1.proto.host := by
  unfold executeUnload
  dsimp only
  split_ifs
  · exact .refl _
  · refine (emits_m57StartUnloadBitfileFromFpga _ _).grows.mono fun e he => ?_
    rcases he with he | rfl
    · exact OfKind.mono (by decide) e he
    · simp [OfKind, Event.kind]

theorem grows_writeKeytoolHandle (body : List UInt8) (c : Ctx) :
    Grows (OfKind [.file]) c.host (writeKeytoolHandle body c).host := by
  unfold writeKeytoolHandle
  dsimp only
  split_ifs
  · exact .refl _
  · exact ⟨_, rfl, by simp [OfKind, Event.kind]⟩

/-- The kinds of events inside a command. -/
def commandKinds : List EventKind := [.xdma, .file, .write, .loadStart, .send, .status]

/-- Commands other than LOAD, UNLOAD and FILE_TRANSFER write nothing to the FPGA. -/
theorem grows_executeSwitch_quiet (contentLength : ℕ) {body : List UInt8}
    (hload : cardCmd (u16 body 0) ≠ .load) (hunload : cardCmd (u16 body 0) ≠ .unload)
    (htrans : cardCmd (u16 body 0) ≠ .fileTransfer) (cn : Conn Ctx) :
    Grows (OfKind [.file, .status]) cn.proto.host
      (executeSwitch contentLength body cn).1.proto.host := by
  unfold executeSwitch
  cases hcmd : cardCmd (u16 body 0) with
  | keyReadE2prom => exact .refl _
  | keyWriteE2prom => exact (grows_writeKeytoolHandle _ _).mono (OfKind.mono (by decide))
  | beatHart => exact .refl _
  | register => exact ⟨[.xdmaEnable 0, .xdmaEnable 1], by simp [registerClient, Ctx.onHost,
      Ctx.emit, Host.emit, Host.onPeer], by simp [OfKind, Event.kind]⟩
  | dataSub =>
    obtain ⟨peers, heq⟩ := dataSub_eq body cn.proto
    exact .of_trace_eq (by simp only [heq]; rfl)
  | dataUnsub =>
    obtain ⟨peers, heq⟩ := onSubscription_eq clientHashDeleteItem body cn.proto
    exact .of_trace_eq (by simp only [dataUnsub, heq]; rfl)
  | listInfo => exact ⟨_, rfl, by simp [OfKind, Event.kind]⟩
  | readBoardInfo => exact .refl _
  | unload => exact absurd hcmd hunload
  | load => exact absurd hcmd hload
  | fileTransfer => exact absurd hcmd htrans
  | other => exact .refl _

/-- Only FILE_TRANSFER stores bytes through a descriptor, starts a load or sends by itself. -/
theorem grows_executeSwitch_of_ne (contentLength : ℕ) {body : List UInt8}
    (htrans : cardCmd (u16 body 0) ≠ .fileTransfer) (cn : Conn Ctx) :
    Grows (OfKind [.xdma, .file, .status]) cn.proto.host
      (executeSwitch contentLength body cn).1.proto.host := by
  by_cases hload : cardCmd (u16 body 0) = .load
  · simp only [executeSwitch, hload]
    exact (grows_executeLoad _ _).mono (OfKind.mono (by decide))
  by_cases hunload : cardCmd (u16 body 0) = .unload
  · simp only [executeSwitch, hunload]
    exact (grows_executeUnload _ _).mono (OfKind.mono (by decide))
  exact (grows_executeSwitch_quiet contentLength hload hunload htrans cn).mono
    (OfKind.mono (by decide))

/-- No command executes or forwards another frame. -/
theorem grows_executeSwitch (contentLength : ℕ) (body : List UInt8) (cn : Conn Ctx) :
    Grows (OfKind commandKinds) cn.proto.host
      (executeSwitch contentLength body cn).1.proto.host := by
  by_cases htrans : cardCmd (u16 body 0) = .fileTransfer
  · simp only [executeSwitch, htrans, executeFileTransfer]
    split_ifs
    · exact (grows_loadFileExit cn).mono (OfKind.mono (by decide))
    · exact ((grows_receiveChunk _ _ _).mono (OfKind.mono (by decide))).trans
        ((grows_loadFileExit _).mono (OfKind.mono (by decide)))
  · exact (grows_executeSwitch_of_ne contentLength htrans cn).mono (OfKind.mono (by decide))

/-- A command is one execution followed by events inside the command. -/
theorem grows_m57ExecuteCmd (contentLength : ℕ) (body : List UInt8) (cn : Conn Ctx) :
    Grows (OfKind commandKinds) (cn.proto.host.emit (.execute body))
      (m57ExecuteCmd contentLength body cn).1.proto.host := by
  have hswitch := grows_executeSwitch contentLength body
    { cn with proto := cn.proto.emit (.execute body) }
  unfold m57ExecuteCmd
  dsimp only
  split_ifs
  · exact hswitch
  · exact hswitch

/-- A command is one execution followed by events inside the command. -/
theorem grows_command (body : List UInt8) (c : Ctx) :
    Grows (OfKind commandKinds) (c.host.emit (.execute body)) (command body c).host := by
  have hexec := grows_m57ExecuteCmd body.length body { proto := c }
  unfold command
  dsimp only
  split_ifs
  · exact hexec
  · exact hexec.trans ((grows_m57SendResp _ _).mono (OfKind.mono (by decide)))
  · exact hexec

theorem cardCmd_keyRead (rest : List UInt8) :
    cardCmd (u16 (le16 CCT_KEY_READ_E2PROM ++ rest) 0) = .keyReadE2prom := by
  rw [u16_le16_append (by decide)]
  rfl

theorem cardCmd_keyWrite (rest : List UInt8) :
    cardCmd (u16 (le16 CCT_KEY_WRITE_E2PROM ++ rest) 0) = .keyWriteE2prom := by
  rw [u16_le16_append (by decide)]
  rfl

/-- The trace only grows. -/
theorem grows_effect (i : Input) (c : Ctx) : Grows (fun _ => True) c.host (i.effect c).host := by
  have hcmd (body : List UInt8) (c₁ : Ctx) :
      Grows (fun _ => True) c₁.host (command body c₁).host :=
    .trans (.emit trivial _) ((grows_command body c₁).mono fun _ _ => trivial)
  cases i with
  | cmd body => exact hcmd body c
  | keyRead rest =>
    rw [Input.effect]
    exact hcmd _ (c.onSect fun s => { s with isKeytoolCmd := true })
  | keyWrite rest =>
    rw [Input.effect]
    exact hcmd _ (c.onSect fun s => { s with isKeytoolCmd := true })
  | data frame => exact .trans (.emit trivial _) (.emit trivial _)

end M57Card.M57
