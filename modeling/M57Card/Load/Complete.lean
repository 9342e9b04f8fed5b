import M57Card.Load.Session

/-!
# Loads of complete files, and refused transfers

Whether a load is started depends on flags and counters of the section that several commands set
separately. In a run of inputs whose FILE_TRANSFER commands all meet `TransferOk`, a load that is
started is of a file received completely for an accepted LOAD. The condition excludes what the
code takes for the end of a transfer although the file is not complete: a FILE_TRANSFER behind a
finished load, whose flags are still set; an empty chunk, whose length is the value by which
`_recv_file_over` reports the end; a chunk with serial number `-1` that leaves the file too short
or too long; the end of a transfer whose LOAD was rejected, for a card that was found since.

A rejected LOAD has set the transfer fields already. It leaves no transfer open exactly when the
descriptor that the section still has is not in use.

## Main definitions

* `Input.ofCmd`, `chunksOf` : the commands of one kind among inputs.
* `CompleteTransfer` : chunks that make up the file a LOAD announces.
* `TransferOk` : a FILE_TRANSFER that starts a load completes the file.
* `AcceptedSince`, `SessionInv` : the invariant of a run.

## Main results

* `run_load_complete` : a load that is started is of a completely received file.
* `rejected_load_refuses_iff` : when a rejected LOAD leaves no transfer open.
-/

namespace M57Card.M57

open Net Bytes

/-! ### Inputs of one kind -/

/-- The body of an input that is a command frame for `cmd`. -/
def Input.ofCmd (cmd : CardCmd) : Input → Option (List UInt8)
  | .cmd body => if cardCmd (u16 body 0) = cmd then some body else none
  | _ => none

/-- The FILE_TRANSFER commands among inputs. -/
def chunksOf (is : List Input) : List (List UInt8) := is.filterMap (Input.ofCmd .fileTransfer)

theorem chunksOf_snoc {i : Input} {body : List UInt8} (h : i.ofCmd .fileTransfer = some body)
    (is : List Input) : chunksOf (is ++ [i]) = chunksOf is ++ [body] := by
  rw [chunksOf, List.filterMap_append, List.filterMap_cons_some h, List.filterMap_nil]
  rfl

theorem chunksOf_snoc_of_none {i : Input} (h : i.ofCmd .fileTransfer = none) (is : List Input) :
    chunksOf (is ++ [i]) = chunksOf is := by
  rw [chunksOf, List.filterMap_append, List.filterMap_cons_none h, List.filterMap_nil,
    List.append_nil]
  rfl

theorem Input.ofCmd_eq_some_iff {cmd : CardCmd} {i : Input} {body : List UInt8} :
    i.ofCmd cmd = some body ↔ i = .cmd body ∧ cardCmd (u16 body 0) = cmd := by
  cases i with
  | cmd b =>
    rw [Input.ofCmd, Option.ite_none_right_eq_some]
    constructor
    · rintro ⟨hcmd, hb⟩
      obtain rfl := Option.some.inj hb
      exact ⟨rfl, hcmd⟩
    · rintro ⟨hb, hcmd⟩
      obtain rfl := Input.cmd.inj hb
      exact ⟨hcmd, rfl⟩
  | keyRead rest => exact iff_of_false nofun nofun
  | keyWrite rest => exact iff_of_false nofun nofun
  | data frame => exact iff_of_false nofun nofun

theorem keeps_command_of_ne {body : List UInt8} (hload : cardCmd (u16 body 0) ≠ .load)
    (htrans : cardCmd (u16 body 0) ≠ .fileTransfer) (c : Ctx) : Keeps c (command body c) := by
  have hswitch := keeps_executeSwitch body.length { proto := c.emit (.execute body) } hload htrans
  exact ((Keeps.emit (.execute body) c).trans hswitch).trans (keeps_command body c)

theorem eventsOf_command_of_ne {body : List UInt8} {k : EventKind}
    (htrans : cardCmd (u16 body 0) ≠ .fileTransfer) (hk : k = .loadStart ∨ k = .write)
    (c : Ctx) : (command body c).host.eventsOf k = c.host.eventsOf k := by
  have hkinds : k ≠ .send ∧ k ≠ .frame ∧ k ∉ [EventKind.xdma, .file, .status] := by
    rcases hk with rfl | rfl
    · decide
    · decide
  rw [eventsOf_command body c hkinds.1,
    (grows_executeSwitch_of_ne body.length htrans _).eventsOf_eq hkinds.2.2]
  exact eventsOf_emit_execute body c hkinds.2.1

theorem Keeps.keytool (c : Ctx) : Keeps c (c.onSect fun s => { s with isKeytoolCmd := true }) :=
  ⟨rfl, rfl, rfl, rfl, fun _ => rfl, fun _ => id⟩

/-- Inputs that are neither LOAD nor FILE_TRANSFER leave a transfer alone. -/
theorem Input.keeps_effect {i : Input} (hload : i.ofCmd .load = none)
    (htrans : i.ofCmd .fileTransfer = none) (c : Ctx) : Keeps c (i.effect c) := by
  cases i with
  | cmd body =>
    refine keeps_command_of_ne (fun hcmd => ?_) (fun hcmd => ?_) c
    · rw [Input.ofCmd, if_pos hcmd] at hload
      exact Option.some_ne_none _ hload
    · rw [Input.ofCmd, if_pos hcmd] at htrans
      exact Option.some_ne_none _ htrans
  | keyRead rest =>
    have hcmd := cardCmd_keyRead rest
    rw [Input.effect]
    exact (Keeps.keytool c).trans
      (keeps_command_of_ne (by rw [hcmd]; decide) (by rw [hcmd]; decide) _)
  | keyWrite rest =>
    have hcmd := cardCmd_keyWrite rest
    rw [Input.effect]
    exact (Keeps.keytool c).trans
      (keeps_command_of_ne (by rw [hcmd]; decide) (by rw [hcmd]; decide) _)
  | data frame =>
    have hemits : Emits (fun _ => True) c.host (m57WriteDataToFpga frame c.host) :=
      .trans (.emit trivial _) (.emit trivial _)
    exact .of_emits hemits

/-- Only FILE_TRANSFER stores bytes or starts a load. -/
theorem Input.eventsOf_effect_of_ne {i : Input} {k : EventKind}
    (htrans : i.ofCmd .fileTransfer = none) (hk : k = .loadStart ∨ k = .write) (c : Ctx) :
    (i.effect c).host.eventsOf k = c.host.eventsOf k := by
  cases i with
  | cmd body =>
    refine eventsOf_command_of_ne (fun hcmd => ?_) hk c
    rw [Input.ofCmd, if_pos hcmd] at htrans
    exact Option.some_ne_none _ htrans
  | keyRead rest =>
    rw [Input.effect]
    exact eventsOf_command_of_ne (by rw [cardCmd_keyRead]; decide) hk _
  | keyWrite rest =>
    rw [Input.effect]
    exact eventsOf_command_of_ne (by rw [cardCmd_keyWrite]; decide) hk _
  | data frame =>
    have hgrows : Grows (OfKind [.frame, .xdma]) c.host (m57WriteDataToFpga frame c.host) :=
      .trans (.emit (by simp [OfKind, Event.kind]) _) (.emit (by simp [OfKind, Event.kind]) _)
    refine hgrows.eventsOf_eq ?_
    rcases hk with rfl | rfl
    · decide
    · decide

/-! ### Completely received files -/

/-- The chunks make up the file that `load` announces: they have its chip id, serial numbers
`0, 1, 2, …` with `-1` allowed for the last one, and non-empty payloads of the announced total
length. -/
structure CompleteTransfer (load : List UInt8) (chunks : List (List UInt8)) : Prop where
  chip : ∀ body ∈ chunks, u16 body 8 = u16 load 8
  payload : ∀ body ∈ chunks, chunkPayload body ≠ []
  sn : ∀ k (hk : k < chunks.length),
    chunkSn chunks[k] = k ∨ k + 1 = chunks.length ∧ chunkSn chunks[k] = -1
  len : (chunks.flatMap chunkPayload).length = u32 load 14

/-- A FILE_TRANSFER that starts a load in the context `c` ends a running transfer whose file was
opened for the chip id, is not empty and brings the bytes received to the announced length. -/
def TransferOk (c : Ctx) (i : Input) : Prop :=
  ∀ body, i.ofCmd .fileTransfer = some body → StartsLoad c body →
    c.sect.isRunLoadfile = true ∧ c.sect.file.path = tmpPath c.sect.chipId ∧
      chunkPayload body ≠ [] ∧
      c.sect.file.lenOffset + (chunkPayload body).length = c.sect.file.len

variable {ok : Ctx → Input → Prop} {c₀ c c' : Ctx} {is mid : List Input} {load : List UInt8}

/-- In the run `is` from `c₀` to `c` the LOAD `load` was accepted, `mid` are the inputs behind it,
and no load was started since. -/
def AcceptedSince (ok : Ctx → Input → Prop) (c₀ : Ctx) (is : List Input) (c : Ctx)
    (load : List UInt8) (mid : List Input) : Prop :=
  ∃ pre c₁, is = pre ++ .cmd load :: mid ∧ InputRun ok c₀ pre c₁ ∧
    cardCmd (u16 load 0) = .load ∧ ioXdmaIsValidChipid c₁.host (u16 load 8) = true ∧
    c.host.eventsOf .loadStart = c₁.host.eventsOf .loadStart

/-- Each load that is started in a run of the inputs of the client `c₀` is of a completely received
file: the starting input `i` completes the file announced by an accepted LOAD, no load was started
since that LOAD, and what is loaded are the payloads received since. -/
def LoadsComplete (ok : Ctx → Input → Prop) (c₀ : Ctx) : Prop :=
  ∀ is c i client path content, InputRun ok c₀ is c → c.host.exited = false → ok c i →
    Event.loadStart client path content ∈ newEvents c.host (i.effect c).host →
    ∃ load mid, AcceptedSince ok c₀ is c load mid ∧ CompleteTransfer load (chunksOf (mid ++ [i])) ∧
      client = c₀.me ∧ path = tmpPath (u16 load 8) ∧
      content = (chunksOf (mid ++ [i])).flatMap chunkPayload ∧
      (i.effect c).host.eventsOf .loadStart =
        c.host.eventsOf .loadStart ++ [.loadStart client path content]

theorem AcceptedSince.snoc (h : AcceptedSince ok c₀ is c load mid) (i : Input)
    (hevents : c'.host.eventsOf .loadStart = c.host.eventsOf .loadStart) :
    AcceptedSince ok c₀ (is ++ [i]) c' load (mid ++ [i]) := by
  obtain ⟨pre, c₁, rfl, hrun, hcmd, hv, hsince⟩ := h
  exact ⟨pre, c₁, by simp, hrun, hcmd, hv, hevents.trans hsince⟩

theorem AcceptedSince.of_singleton {body : List UInt8}
    (h : AcceptedSince ok c₀ [.cmd body] c load mid) : load = body ∧ mid = [] := by
  obtain ⟨pre, c₁, his, -⟩ := h
  cases pre with
  | nil =>
    obtain ⟨hload, hmid⟩ := List.cons.inj his
    exact ⟨(Input.cmd.inj hload).symm, hmid.symm⟩
  | cons i pre => simp at his

/-- A transfer is open, and all that the client has sent since an accepted LOAD belongs to it. -/
def OpenSession (c₀ : Ctx) (is : List Input) (c : Ctx) : Prop :=
  ∃ load mid, AcceptedSince TransferOk c₀ is c load mid ∧
    (∀ k (hk : k < (chunksOf mid).length), IsChunk (chunksOf mid)[k] (u16 load 8) k) ∧
    Transferring c (u16 load 8) (u32 load 14) (chunksOf mid).length
      ((chunksOf mid).flatMap chunkPayload)

/-- With `last` a load of a completely received file is started. -/
def CompletesSession (c₀ : Ctx) (is : List Input) (c : Ctx) (last : List UInt8) : Prop :=
  ∃ load mid, AcceptedSince TransferOk c₀ is c load mid ∧
    CompleteTransfer load (chunksOf mid ++ [last]) ∧
    (command last c).host.eventsOf .loadStart = c.host.eventsOf .loadStart ++
      [.loadStart c.me (tmpPath (u16 load 8)) ((chunksOf mid ++ [last]).flatMap chunkPayload)]

theorem OpenSession.keeps {i : Input} (h : OpenSession c₀ is c) (hkeeps : Keeps c c')
    (hi : i.ofCmd .fileTransfer = none)
    (hevents : c'.host.eventsOf .loadStart = c.host.eventsOf .loadStart) :
    OpenSession c₀ (is ++ [i]) c' := by
  obtain ⟨load, mid, hsince, hchunks, htrans⟩ := h
  have hmid := chunksOf_snoc_of_none hi mid
  refine ⟨load, mid ++ [i], hsince.snoc i hevents, ?_, ?_⟩
  · simpa only [hmid] using hchunks
  · simpa only [hmid] using htrans.keeps hkeeps

/-- What holds of the numbered chunks of a list and of one more behind them. -/
theorem forall_getElem_snoc (P : List UInt8 → ℕ → Prop) {chunks : List (List UInt8)}
    {last : List UInt8} (h : ∀ k (hk : k < chunks.length), P chunks[k] k)
    (hlast : P last chunks.length) :
    ∀ k (hk : k < (chunks ++ [last]).length), P (chunks ++ [last])[k] k := by
  intro k hk
  rw [List.length_append, List.length_singleton] at hk
  by_cases hold : k < chunks.length
  · rw [List.getElem_append_left hold]
    exact h k hold
  · obtain rfl : k = chunks.length := by omega
    rwa [List.getElem_concat_length rfl]

theorem completeTransfer_of_chunks {chunks : List (List UInt8)} {last : List UInt8}
    (hchunks : ∀ k (hk : k < chunks.length), IsChunk chunks[k] (u16 load 8) k)
    (hchip : u16 last 8 = u16 load 8) (hsn : chunkSn last = -1 ∨ chunkSn last = chunks.length)
    (hne : chunkPayload last ≠ [])
    (hlen : (chunks.flatMap chunkPayload ++ chunkPayload last).length = u32 load 14) :
    CompleteTransfer load (chunks ++ [last]) where
  chip body hbody := by
    rcases List.mem_append.mp hbody with hbody | hbody
    · obtain ⟨k, hk, rfl⟩ := List.mem_iff_getElem.mp hbody
      exact (hchunks k hk).chip
    · rw [List.mem_singleton.mp hbody, hchip]
  payload body hbody := by
    rcases List.mem_append.mp hbody with hbody | hbody
    · obtain ⟨k, hk, rfl⟩ := List.mem_iff_getElem.mp hbody
      exact (hchunks k hk).payload
    · rwa [List.mem_singleton.mp hbody]
  sn := by
    refine forall_getElem_snoc
      (fun b k => chunkSn b = k ∨ k + 1 = (chunks ++ [last]).length ∧ chunkSn b = -1)
      (fun k hk => .inl (hchunks k hk).sn) (hsn.symm.imp_right fun heq => ⟨?_, heq⟩)
    rw [List.length_append, List.length_singleton]
  len := by rw [List.flatMap_append, List.flatMap_singleton, hlen]

/-- A FILE_TRANSFER in an open session carries the transfer on, gives it up without a load, or
completes it. -/
theorem OpenSession.fileTransfer {body : List UInt8} (h : OpenSession c₀ is c)
    (hw : WritesAll c.host.env) (hcmd : cardCmd (u16 body 0) = .fileTransfer)
    (hok : TransferOk c (.cmd body)) :
    OpenSession c₀ (is ++ [.cmd body]) (command body c) ∧
        (command body c).host.eventsOf .loadStart = c.host.eventsOf .loadStart ∨
      (command body c).sect.isRunLoadfile = false ∧
        ((command body c).host.eventsOf .loadStart = c.host.eventsOf .loadStart ∨
          CompletesSession c₀ is c body) := by
  obtain ⟨load, mid, hsince, hchunks, htrans⟩ := h
  have hchunk : Input.ofCmd .fileTransfer (.cmd body) = some body := if_pos hcmd
  by_cases hfail : ¬ AcceptsChunk c body ∨ body.length < 12 ∨ chunkSn body ≠ -1 ∧
      u32 load 14 < ((chunksOf mid).flatMap chunkPayload ++ chunkPayload body).length
  · obtain ⟨hrun, hevents⟩ := htrans.command_failed hw hcmd hfail
    exact .inr ⟨hrun, .inl hevents⟩
  obtain ⟨hacc, hlen, hlong⟩ : AcceptsChunk c body ∧ 12 ≤ body.length ∧ (chunkSn body = -1 ∨
      ((chunksOf mid).flatMap chunkPayload ++ chunkPayload body).length ≤ u32 load 14) := by
    simp only [not_or, not_not, not_and, not_lt] at hfail
    refine ⟨hfail.1, hfail.2.1, ?_⟩
    by_cases hsn : chunkSn body = -1
    · exact .inl hsn
    · exact .inr (hfail.2.2 hsn)
  have hchip : u16 body 8 = u16 load 8 := hacc.1.trans htrans.chipId
  have hsn : chunkSn body = -1 ∨ chunkSn body = (chunksOf mid).length :=
    hacc.2.imp_right fun heq => heq.trans htrans.sn
  by_cases hends : EndsTransfer c body
  · -- the condition leaves only the chunk that completes the file
    have hstarts : StartsLoad c body := by
      refine ⟨htrans.chipId ▸ htrans.isValid, ?_⟩
      rw [if_pos htrans.isRunLoadfile]
      exact ⟨hacc, (storesChunk_iff (c := c.emit (.execute body)) hw).mpr
        ⟨htrans.hasOpenFile, hlen⟩, hends⟩
    obtain ⟨-, -, hne, htotal⟩ := hok body hchunk hstarts
    rw [htrans.lenOffset, htrans.len, ← List.length_append] at htotal
    obtain ⟨hrun, hstart⟩ := htrans.command_last hw hcmd hchip hsn hlen (.inl htotal)
    refine .inr ⟨hrun, .inr ⟨load, mid, hsince, ?_, ?_⟩⟩
    · exact completeTransfer_of_chunks hchunks hchip hsn hne htotal
    · rw [hstart, List.flatMap_append, List.flatMap_singleton]
  · obtain ⟨htotal, hlast, hempty⟩ :=
      not_or.mp ((htrans.endsTransfer_iff hacc).not.mp hends) |>.imp_right not_or.mp
    have hne : chunkPayload body ≠ [] := by
      intro hnil
      refine hempty ⟨hnil, ?_⟩
      rw [hnil, List.append_nil] at htotal hlong
      exact lt_of_le_of_ne (hlong.resolve_left hlast) htotal
    have hlt := lt_of_le_of_ne (hlong.resolve_left hlast) htotal
    obtain ⟨hnext, hevents, -⟩ :=
      htrans.command_middle hw hcmd hchip (hsn.resolve_left hlast) hne hlt
    have hmid := chunksOf_snoc hchunk mid
    refine .inl ⟨⟨load, mid ++ [.cmd body], hsince.snoc _ hevents, ?_, ?_⟩, hevents⟩
    · simp only [hmid]
      exact forall_getElem_snoc (fun b k => IsChunk b (u16 load 8) k) hchunks
        ⟨hcmd, hchip, hsn.resolve_left hlast, hne⟩
    · simpa only [hmid, List.length_append, List.length_singleton, List.flatMap_append,
        List.flatMap_singleton] using hnext

/-- The invariant of a run: the path of the section is that of a chip that is present, and a
running transfer for the chip id of the section is an open session. -/
structure SessionInv (c₀ : Ctx) (is : List Input) (c : Ctx) : Prop where
  me : c.me = c₀.me
  env : c.host.env = c₀.host.env
  path : 0 < c.sect.file.fd →
    ∃ chip, ioXdmaIsValidChipid c.host chip = true ∧ c.sect.file.path = tmpPath chip
  session : c.sect.isRunLoadfile = true → 0 < c.sect.file.fd →
    c.sect.file.path = tmpPath c.sect.chipId → OpenSession c₀ is c

theorem SessionInv.quiet {i : Input} (h : SessionInv c₀ is c) (hload : i.ofCmd .load = none)
    (htrans : i.ofCmd .fileTransfer = none) : SessionInv c₀ (is ++ [i]) (i.effect c) := by
  have hkeeps := Input.keeps_effect hload htrans c
  have hevents := Input.eventsOf_effect_of_ne htrans (.inl rfl) c
  refine ⟨hkeeps.me.trans h.me, hkeeps.env.trans h.env, ?_, ?_⟩
  · rw [hkeeps.file]
    intro hfd
    obtain ⟨chip, hv, hp⟩ := h.path hfd
    exact ⟨chip, hkeeps.isValid hv, hp⟩
  · rw [hkeeps.isRunLoadfile, hkeeps.file, hkeeps.chipId]
    intro hrunning hfd hpath
    exact (h.session hrunning hfd hpath).keeps hkeeps htrans hevents

theorem SessionInv.after_load {body : List UInt8} (h : SessionInv c₀ is c)
    (hrun : InputRun TransferOk c₀ is c) (hlive : c.host.exited = false)
    (hcmd : cardCmd (u16 body 0) = .load) (hlive' : (command body c).host.exited = false) :
    SessionInv c₀ (is ++ [.cmd body]) (command body c) := by
  obtain ⟨hme, henv, -⟩ := command_frame body c
  cases hv : ioXdmaIsValidChipid c.host (u16 body 8) with
  | false =>
    -- the section has the rejected chip id, but the path of a card that is present
    have hkeeps := keeps_command_rejected hcmd hv
    have hfile : (command body c).sect.file.fd = c.sect.file.fd ∧
        (command body c).sect.file.path = c.sect.file.path := by
      rw [hkeeps.file]
      exact ⟨rfl, rfl⟩
    have hpath (hfd : 0 < (command body c).sect.file.fd) : ∃ chip,
        ioXdmaIsValidChipid c.host chip = true ∧
          (command body c).sect.file.path = tmpPath chip := by
      rw [hfile.2]
      exact h.path (hfile.1 ▸ hfd)
    refine ⟨hme.trans h.me, henv.trans h.env, fun hfd => ?_, fun _ hfd heq => ?_⟩
    · obtain ⟨chip, hchip, hp⟩ := hpath hfd
      exact ⟨chip, hkeeps.isValid hchip, hp⟩
    · obtain ⟨chip, hchip, hp⟩ := hpath hfd
      rw [hkeeps.chipId] at heq
      have hsame : chip = u16 body 8 := tmpPath_injective (hp.symm.trans heq)
      exact absurd (hsame ▸ hchip) (by rw [hv]; decide)
  | true =>
    rcases command_load_accepted hcmd hlive hv with hexit | ⟨htrans, hevents⟩
    · exact Bool.noConfusion (hlive'.symm.trans hexit)
    · exact ⟨hme.trans h.me, henv.trans h.env, fun _ => ⟨_, htrans.isValid, htrans.path⟩,
        fun _ _ _ => ⟨body, [], ⟨is, c, rfl, hrun, hcmd, hv, hevents⟩, nofun, htrans⟩⟩

theorem SessionInv.after_fileTransfer {body : List UInt8} (h : SessionInv c₀ is c)
    (hw : WritesAll c₀.host.env) (hcmd : cardCmd (u16 body 0) = .fileTransfer)
    (hok : TransferOk c (.cmd body)) : SessionInv c₀ (is ++ [.cmd body]) (command body c) := by
  obtain ⟨hme, henv, -⟩ := command_frame body c
  obtain ⟨hkeeps, -, -⟩ := command_fileTransfer hcmd c
  have hsame := sameCard_received body c
  have hfd : (command body c).sect.file.fd = c.sect.file.fd := by rw [hkeeps.file, hsame.fd]
  have hpath : (command body c).sect.file.path = c.sect.file.path := by
    rw [hkeeps.file, hsame.path]
  have hchip : (command body c).sect.chipId = c.sect.chipId := hkeeps.chipId.trans hsame.chipId
  refine ⟨hme.trans h.me, henv.trans h.env, fun hpos => ?_, fun hrun hpos heq => ?_⟩
  · obtain ⟨chip, hv, hp⟩ := h.path (hfd ▸ hpos)
    refine ⟨chip, hkeeps.isValid ?_, hpath.trans hp⟩
    rw [ioXdmaIsValidChipid, hsame.cards]
    exact hv
  · have hrun₀ : c.sect.isRunLoadfile = true := by
      by_contra hnot
      have hfalse : c.sect.isRunLoadfile = false := Bool.eq_false_iff.mpr hnot
      rw [hkeeps.isRunLoadfile, received, if_pos hfalse] at hrun
      exact hnot hrun
    have hsession := h.session hrun₀ (hfd ▸ hpos) (by rw [← hpath, heq, hchip])
    rcases hsession.fileTransfer (h.env ▸ hw) hcmd hok with ⟨hnext, -⟩ | ⟨hstop, -⟩
    · exact hnext
    · exact Bool.noConfusion (hrun.symm.trans hstop)

/-- The invariant holds in every live context of a run from a client that has just connected. -/
theorem sessionInv_of_run (hfresh : c₀.sect = {}) (hw : WritesAll c₀.host.env)
    (hrun : InputRun TransferOk c₀ is c) (hlive : c.host.exited = false) :
    SessionInv c₀ is c := by
  refine LabelRun.invariant (fun is c => c.host.exited = false → SessionInv c₀ is c) ?_ ?_ hrun
    hlive
  · refine fun _ => ⟨rfl, rfl, fun hfd => ?_, fun hrun => ?_⟩
    · rw [hfresh] at hfd
      exact absurd hfd (lt_irrefl 0)
    · rw [hfresh] at hrun
      exact Bool.noConfusion hrun
  · intro is c i hrun hlive₀ hok ih hlive
    have h := ih hlive₀
    rcases hload : i.ofCmd .load with _ | body
    · rcases htrans : i.ofCmd .fileTransfer with _ | body
      · exact h.quiet hload htrans
      · obtain ⟨rfl, hcmd⟩ := Input.ofCmd_eq_some_iff.mp htrans
        exact h.after_fileTransfer hw hcmd hok
    · obtain ⟨rfl, hcmd⟩ := Input.ofCmd_eq_some_iff.mp hload
      exact h.after_load hrun hlive₀ hcmd hlive

/-- **A load that is started is of a completely received file**, in every run of the inputs of a
client in which each FILE_TRANSFER meets `TransferOk`. -/
theorem run_load_complete (hfresh : c₀.sect = {}) (hw : WritesAll c₀.host.env) :
    LoadsComplete TransferOk c₀ := by
  intro is c i client path content hrun hlive hok hstart
  have hinv := sessionInv_of_run hfresh hw hrun hlive
  have hw' : WritesAll c.host.env := hinv.env ▸ hw
  have hnone (hevents : (i.effect c).host.eventsOf .loadStart = c.host.eventsOf .loadStart) :
      False := by
    have hmem := (grows_effect i c).mem_of_newEvents (l := [])
      (by rw [List.append_nil]; exact hevents) hstart
    exact List.not_mem_nil hmem
  rcases htrans : i.ofCmd .fileTransfer with _ | body
  · exact (hnone (Input.eventsOf_effect_of_ne htrans (.inl rfl) c)).elim
  obtain ⟨rfl, hcmd⟩ := Input.ofCmd_eq_some_iff.mp htrans
  obtain ⟨-, hevents, -⟩ := command_fileTransfer hcmd c
  have hstarts : StartsLoad c body := by
    by_contra hnot
    rw [startedLoad_eq_nil_iff.mpr hnot, List.append_nil] at hevents
    exact hnone hevents
  obtain ⟨hrunning, hpath, -⟩ := hok body htrans hstarts
  have hfd : 0 < c.sect.file.fd := by
    obtain ⟨-, hcond⟩ := hstarts
    rw [if_pos hrunning] at hcond
    exact hcond.2.1.1.1
  rcases (hinv.session hrunning hfd hpath).fileTransfer hw' hcmd hok with
    ⟨-, hsame⟩ | ⟨-, hsame | hcompletes⟩
  · exact (hnone hsame).elim
  · exact (hnone hsame).elim
  obtain ⟨load, mid, hsince, hcomplete, hload⟩ := hcompletes
  have hmid := chunksOf_snoc htrans mid
  have hmem := (grows_effect (.cmd body) c).mem_of_newEvents (e := .loadStart client path content)
    hload hstart
  obtain ⟨rfl, rfl, rfl⟩ := Event.loadStart.inj (List.mem_singleton.mp hmem)
  refine ⟨load, mid, hsince, ?_, hinv.me, rfl, ?_, hload⟩
  · rwa [hmid]
  · rw [hmid]

/-- A file of one byte for chip `0x0502` that a client sends in one chunk, where the hypotheses
and the condition hold. -/
theorem run_load_complete_one_byte :
    CompleteTransfer [5, 0, 8, 0, 0, 0, 0, 0, 2, 5, 0, 0, 0, 0, 1, 0, 0, 0]
      [[9, 0, 8, 0, 0, 0, 0, 0, 2, 5, 0xff, 0xff, 0xaa]] := by
  have hload : TransferOk (.start .reliable fun i => i == 5)
      (.cmd [5, 0, 8, 0, 0, 0, 0, 0, 2, 5, 0, 0, 0, 0, 1, 0, 0, 0]) := nofun
  have hlast : TransferOk (command [5, 0, 8, 0, 0, 0, 0, 0, 2, 5, 0, 0, 0, 0, 1, 0, 0, 0]
      (.start .reliable fun i => i == 5))
      (.cmd [9, 0, 8, 0, 0, 0, 0, 0, 2, 5, 0xff, 0xff, 0xaa]) := by
    intro body hbody _
    obtain ⟨heq, -⟩ := Input.ofCmd_eq_some_iff.mp hbody
    obtain rfl := Input.cmd.inj heq
    decide
  obtain ⟨load, mid, hsince, hcomplete, -⟩ :=
    @run_load_complete (.start .reliable fun i => i == 5) rfl (fun _ _ => rfl) _ _ _ 0
      (tmpPath 0x0502) [0xaa] (.snoc .nil rfl hload) (by decide) hlast (by decide)
  obtain ⟨rfl, rfl⟩ := hsince.of_singleton
  exact hcomplete

/-- Without the condition a file that is too short is loaded: eight bytes are announced, and the
only chunk has one byte and the serial number `-1`. -/
theorem not_loadsComplete_short_file :
    ¬ LoadsComplete (fun _ _ => True) (.start .reliable fun i => i == 5) := by
  intro h
  obtain ⟨load, mid, hsince, hcomplete, -⟩ :=
    h [.cmd [5, 0, 8, 0, 0, 0, 0, 0, 2, 5, 0, 0, 0, 0, 8, 0, 0, 0]] _
      (.cmd [9, 0, 8, 0, 0, 0, 0, 0, 2, 5, 0xff, 0xff, 0xaa]) 0 (tmpPath 0x0502) [0xaa]
      (.snoc .nil rfl trivial) (by decide) trivial (by decide)
  obtain ⟨rfl, rfl⟩ := hsince.of_singleton
  exact absurd hcomplete.len (by decide)

/-! ### Rejected LOAD commands -/

/-- The context with other answers of the operating system and the hardware. -/
def Ctx.withEnv (env : Env) (c : Ctx) : Ctx := c.onHost fun h => { h with env := env }

/-- Whatever the operating system answers, FILE_TRANSFER commands from `c` on store no byte and
start no load. -/
def RefusesTransfers (c : Ctx) : Prop :=
  ∀ env bodies, (∀ body ∈ bodies, cardCmd (u16 body 0) = .fileTransfer) →
    (∀ client path content, Event.loadStart client path content ∉
      newEvents c.host (runCommands bodies (c.withEnv env)).host) ∧
    ∀ fd bytes, Event.write fd bytes ∈ newEvents c.host (runCommands bodies (c.withEnv env)).host →
      bytes = []

/-- No file has been received and none can be. -/
def Refusing (c : Ctx) : Prop := c.sect.isLoadfileOk = false ∧ ¬ HasOpenFile c

theorem hasOpenFile_of_keeps (h : Keeps c c') : HasOpenFile c' ↔ HasOpenFile c := by
  rw [HasOpenFile, HasOpenFile, h.file, h.descr]

theorem Refusing.keeps (h : Refusing c) (hkeeps : Keeps c c') : Refusing c' :=
  ⟨hkeeps.isLoadfileOk.trans h.1, (hasOpenFile_of_keeps hkeeps).not.mpr h.2⟩

/-- The end of a transfer leaves no open descriptor in the section. -/
theorem not_hasOpenFile_closeTransfer (fileOk : Bool) (c : Ctx) :
    ¬ HasOpenFile (closeTransfer fileOk c) := by
  rintro ⟨hfd, hopen⟩
  have hsame := sameCard_closeTransfer fileOk c
  rw [hsame.fd] at hfd hopen
  unfold closeTransfer at hopen
  rw [if_pos] at hopen
  · change ((c.host.files.close c.sect.file.fd).descr c.sect.file.fd).isSome = true at hopen
    rw [FileTable.descr_close, Function.update_self] at hopen
    exact Bool.noConfusion hopen
  · exact hfd

/-- A chunk that cannot be stored leaves the client refusing, and nothing is stored. -/
theorem Refusing.received (h : Refusing c) (body : List UInt8) :
    Refusing (received body c) ∧
      (M57.received body c).host.trace = c.host.trace ++ [.execute body] := by
  rw [M57.received]
  split_ifs with hrun
  · exact ⟨h.keeps (.emit _ c), rfl⟩
  by_cases hacc : AcceptsChunk (c.emit (.execute body)) body
  · rw [receiveChunk_of_not_stored hacc fun hst => h.2 hst.1, closeTransfer_trace]
    exact ⟨⟨(closeTransfer_flags false _).2.1, not_hasOpenFile_closeTransfer false _⟩, rfl⟩
  · obtain ⟨hhost, -, hok⟩ := receiveChunk_rejected body.length hacc
    have hfd := (sameCard_receiveChunk body.length body (c.emit (.execute body))).fd
    refine ⟨⟨hok, ?_⟩, by rw [hhost]; rfl⟩
    rw [HasOpenFile, hhost, hfd]
    exact h.2

/-- A client that refuses stays so, with no byte stored and no load started, until a LOAD is
accepted. -/
theorem Refusing.effect {i : Input} {k : EventKind} (h : Refusing c)
    (hload : ∀ body, i.ofCmd .load = some body → ioXdmaIsValidChipid c.host (u16 body 8) = false)
    (hk : k = .loadStart ∨ k = .write) :
    Refusing (i.effect c) ∧ (i.effect c).host.eventsOf k = c.host.eventsOf k := by
  rcases htrans : i.ofCmd .fileTransfer with _ | body
  · refine ⟨?_, Input.eventsOf_effect_of_ne htrans hk c⟩
    rcases hi : i.ofCmd .load with _ | body
    · exact h.keeps (Input.keeps_effect hi htrans c)
    · have hv := hload body hi
      obtain ⟨rfl, hcmd⟩ := Input.ofCmd_eq_some_iff.mp hi
      exact Refusing.keeps (c := (c.emit (.execute body)).onSect (loadSection body)) ⟨rfl, h.2⟩
        (keeps_command_rejected hcmd hv)
  · obtain ⟨rfl, hcmd⟩ := Input.ofCmd_eq_some_iff.mp htrans
    obtain ⟨hkeeps, hevents, -⟩ := command_fileTransfer hcmd c
    obtain ⟨hrefusing, htrace⟩ := h.received body
    refine ⟨hrefusing.keeps hkeeps, ?_⟩
    rcases hk with rfl | rfl
    · refine hevents.trans ?_
      rw [startedLoad_of_not_ok hrefusing.1, List.append_nil]
    · refine (eventsOf_write_fileTransfer hcmd c).trans ?_
      rw [Host.eventsOf, htrace, List.filter_append]
      exact List.append_nil _

theorem Refusing.runCommands {bodies : List (List UInt8)} {k : EventKind} (h : Refusing c)
    (hbodies : ∀ body ∈ bodies, cardCmd (u16 body 0) = .fileTransfer)
    (hk : k = .loadStart ∨ k = .write) :
    (runCommands bodies c).host.eventsOf k = c.host.eventsOf k := by
  induction bodies generalizing c with
  | nil => rfl
  | cons body bodies ih =>
    have hcmd := hbodies body List.mem_cons_self
    obtain ⟨hnext, hevents⟩ := h.effect (i := .cmd body) (fun b hb => by
      have hcmd' := (Input.ofCmd_eq_some_iff.mp hb).2
      obtain rfl := Input.cmd.inj (Input.ofCmd_eq_some_iff.mp hb).1
      rw [hcmd] at hcmd'
      exact CardCmd.noConfusion hcmd') hk
    exact (ih hnext fun b hb => hbodies b (List.mem_cons_of_mem _ hb)).trans hevents

theorem grows_runCommands (bodies : List (List UInt8)) (c : Ctx) :
    Grows (fun _ => True) c.host (runCommands bodies c).host := by
  induction bodies generalizing c with
  | nil => exact .refl _
  | cons body bodies ih => exact (grows_effect (.cmd body) c).trans (ih (command body c))

/-- A FILE_TRANSFER for `chip` with serial number `0` and one byte. -/
def firstChunk (chip : ℕ) : List UInt8 := [9, 0, 0, 0, 0, 0, 0, 0] ++ (le16 chip ++ [0, 0, 0])

theorem u16_firstChunk {chip : ℕ} (hchip : chip < 65536) : u16 (firstChunk chip) 8 = chip := by
  have hdrop : u16 (firstChunk chip) 8 = u16 ((firstChunk chip).drop 8) 0 :=
    (u16_drop (firstChunk chip) 8 0).symm
  rw [hdrop]
  exact u16_le16_append hchip _

/-- A running transfer with an open descriptor stores the first chunk, whatever its file is. -/
theorem write_mem_firstChunk (hw : WritesAll c.host.env) (hrun : c.sect.isRunLoadfile = true)
    (hsn : c.sect.file.sn = 0) (hchip : c.sect.chipId < 65536) (hopen : HasOpenFile c) :
    Event.write c.sect.file.fd [0] ∈
      newEvents c.host (command (firstChunk c.sect.chipId) c).host := by
  set body := firstChunk c.sect.chipId with hbody
  have hcmd : cardCmd (u16 body 0) = .fileTransfer := rfl
  have hacc : AcceptsChunk (c.emit (.execute body)) body :=
    ⟨u16_firstChunk hchip, .inr hsn.symm⟩
  have hstores : StoresChunk (c.emit (.execute body)) body :=
    (storesChunk_iff (c := c.emit (.execute body)) hw).mpr ⟨hopen, Nat.le_succ 12⟩
  obtain ⟨k, files, hk, -, hrecv⟩ := receiveChunk_of_stored hacc hstores
  obtain rfl : 1 = k := Option.some.inj ((hw _ _).symm.trans hk)
  have htrace : (received body c).host.trace =
      c.host.trace ++ [.execute body, .write c.sect.file.fd [0]] := by
    have hstore : (storeChunk body [0] files (c.emit (.execute body))).host.trace =
        c.host.trace ++ [.execute body, .write c.sect.file.fd [0]] := List.append_assoc _ _ _
    rw [received_of_running hrun, hrecv]
    split_ifs
    · exact (closeTransfer_trace _ _).trans hstore
    · exact (closeTransfer_trace _ _).trans hstore
    · exact hstore
  refine (grows_effect (.cmd body) c).mem_newEvents (l := [.write c.sect.file.fd [0]]) ?_
    (List.mem_singleton_self _)
  refine (eventsOf_write_fileTransfer hcmd c).trans ?_
  rw [Host.eventsOf, htrace, List.filter_append]
  rfl

/-- **A rejected LOAD leaves the client refusing FILE_TRANSFER exactly when the descriptor of the
section is not open**; an open one belongs to an earlier transfer or to something else. -/
theorem rejected_load_refuses_iff (hcmd : cardCmd (u16 load 0) = .load)
    (hv : ioXdmaIsValidChipid c.host (u16 load 8) = false) :
    RefusesTransfers (command load c) ↔ ¬ HasOpenFile c := by
  have hkeeps := keeps_command_rejected hcmd hv
  have hopen : HasOpenFile (command load c) ↔ HasOpenFile c :=
    hasOpenFile_of_keeps (c := (c.emit (.execute load)).onSect (loadSection load)) hkeeps
  constructor
  · intro h hc
    -- one more chunk goes to the open descriptor
    have hchip : ((command load c).withEnv .reliable).sect.chipId = u16 load 8 := hkeeps.chipId
    have hsn : ((command load c).withEnv .reliable).sect.file.sn = 0 :=
      congrArg SectionFile.sn hkeeps.file
    have hmem := write_mem_firstChunk (c := (command load c).withEnv .reliable) (fun _ _ => rfl)
      hkeeps.isRunLoadfile hsn (hchip ▸ u16_lt load 8) (hopen.mpr hc)
    obtain ⟨-, hwrite⟩ := h .reliable [firstChunk (u16 load 8)] (by simp [firstChunk]; rfl)
    rw [hchip] at hmem
    exact absurd (hwrite _ _ hmem) (by decide)
  · intro hc env bodies hbodies
    have hrefusing : Refusing ((command load c).withEnv env) :=
      ⟨hkeeps.isLoadfileOk, hopen.not.mpr hc⟩
    have hnone {k : EventKind} (hk : k = .loadStart ∨ k = .write) {e : Event} (he : e.kind = k) :
        e ∉ newEvents (command load c).host
          (runCommands bodies ((command load c).withEnv env)).host := by
      intro hmem
      have hevents := hrefusing.runCommands hbodies hk
      have hgrows := grows_runCommands bodies ((command load c).withEnv env)
      have hnil := hgrows.mem_of_newEvents (e := e) (l := [])
        (by rw [he, List.append_nil]; exact hevents) hmem
      exact List.not_mem_nil hnil
    exact ⟨fun client path content => hnone (.inl rfl) rfl,
      fun fd bytes hmem => absurd hmem (hnone (.inr rfl) rfl)⟩

/-- A client that has just connected: the card of chip `0x0302` is not present. -/
theorem rejected_load_refuses_first :
    RefusesTransfers (command [5, 0, 8, 0, 0, 0, 0, 0, 2, 3, 0, 0, 0, 0, 8, 0, 0, 0]
      (.start .reliable fun i => i == 5)) :=
  (rejected_load_refuses_iff (by decide) (by decide)).mpr (by decide)

/-- Behind an accepted LOAD for chip `0x0502`, a rejected LOAD for chip `0x0302` leaves the
descriptor of the first transfer open: the next chunk for chip `0x0302` is written to its file. -/
theorem not_refusesTransfers_second_load :
    ¬ ioXdmaIsValidChipid (command [5, 0, 8, 0, 0, 0, 0, 0, 2, 5, 0, 0, 0, 0, 8, 0, 0, 0]
        (.start .reliable fun i => i == 5)).host 0x0302 ∧
      ¬ RefusesTransfers (command [5, 0, 8, 0, 0, 0, 0, 0, 2, 3, 0, 0, 0, 0, 8, 0, 0, 0]
        (command [5, 0, 8, 0, 0, 0, 0, 0, 2, 5, 0, 0, 0, 0, 8, 0, 0, 0]
          (.start .reliable fun i => i == 5))) := by
  refine ⟨by decide, fun h => ?_⟩
  obtain ⟨-, hwrite⟩ := h .reliable [[9, 0, 8, 0, 0, 0, 0, 0, 2, 3, 0, 0, 0xaa]] (by decide)
  exact absurd (hwrite 3 [0xaa] (by decide)) (by decide)

end M57Card.M57
