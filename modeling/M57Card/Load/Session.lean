import M57Card.Load.Transfer

/-!
# Load sessions of a client

A session is a LOAD command and the FILE_TRANSFER commands behind it. A file that is sent correctly
is loaded once, after its last chunk, from whatever state the client is in: LOAD sets all that a
transfer rests on, so that nothing of earlier transfers counts.

## Main definitions

* `runCommands` : commands one after the other.
* `IsLoad`, `IsChunk` : the fields of the commands of a session.

## Main results

* `command_frame` : no command changes the client or the environment.
* `load_once` : a file sent correctly is loaded once.
-/

namespace M57Card.M57

open Net Bytes

/-- Commands one after the other. -/
def runCommands (bodies : List (List UInt8)) (c : Ctx) : Ctx :=
  bodies.foldl (fun c body => command body c) c

/-- A LOAD for `chip` that announces `len` bytes. -/
structure IsLoad (body : List UInt8) (chip len : ℕ) : Prop where
  cmd : cardCmd (u16 body 0) = .load
  chip : u16 body 8 = chip
  len : u32 body 14 = len

/-- A FILE_TRANSFER for `chip` with serial number `sn` and a payload. -/
structure IsChunk (body : List UInt8) (chip : ℕ) (sn : ℤ) : Prop where
  cmd : cardCmd (u16 body 0) = .fileTransfer
  chip : u16 body 8 = chip
  sn : chunkSn body = sn
  payload : chunkPayload body ≠ []

variable {c : Ctx} {chip : ℕ}

/-! ### A file sent correctly -/

/-- An accepted LOAD opens a transfer and starts no load. -/
theorem transferring_command_load {load : List UInt8} {len : ℕ} (h : IsLoad load chip len)
    (hlive : c.host.exited = false) (hv : ioXdmaIsValidChipid c.host chip = true)
    (hopen : c.host.env.openFails (c.host.now + 1) = false) :
    Transferring (command load c) chip len 0 [] ∧
      (command load c).host.eventsOf .loadStart = c.host.eventsOf .loadStart ∧
      (command load c).host.exited = false := by
  obtain ⟨hcmd, rfl, rfl⟩ := h
  have hswitch := executeSwitch_load hcmd c
  have hnow : (c.emit (.execute load)).host.now = c.host.now + 1 := now_emit _ c.host
  obtain ⟨htrans, hexited⟩ : Transferring
      (executeLoad load { proto := c.emit (.execute load) }).1.proto _ _ 0 [] ∧ _ :=
    transferring_executeLoad _ hv hlive (hnow ▸ hopen)
  have hkeeps := keeps_command load c
  rw [hswitch] at hkeeps
  refine ⟨htrans.keeps hkeeps, ?_, by rw [exited_command, hswitch]; exact hexited⟩
  rw [eventsOf_command load c (by decide), hswitch, (grows_executeLoad _ _).eventsOf_eq (by decide)]
  exact eventsOf_emit_execute load c (by decide)

/-- A LOAD with a valid chip id opens a transfer, or ends the process. -/
theorem command_load_accepted {load : List UInt8} (hcmd : cardCmd (u16 load 0) = .load)
    (hlive : c.host.exited = false) (hv : ioXdmaIsValidChipid c.host (u16 load 8) = true) :
    (command load c).host.exited = true ∨
      Transferring (command load c) (u16 load 8) (u32 load 14) 0 [] ∧
        (command load c).host.eventsOf .loadStart = c.host.eventsOf .loadStart := by
  cases hopen : c.host.env.openFails (c.host.now + 1) with
  | true =>
    have hnow : (c.emit (.execute load)).host.now = c.host.now + 1 := now_emit _ c.host
    rw [exited_command, executeSwitch_load hcmd]
    exact .inl (exited_executeLoad { proto := c.emit (.execute load) } hv (hnow ▸ hopen))
  | false =>
    obtain ⟨htrans, hevents, -⟩ := transferring_command_load ⟨hcmd, rfl, rfl⟩ hlive hv hopen
    exact .inr ⟨htrans, hevents⟩

/-- What no command changes: who the client is, the environment, and whether the client is being
closed. -/
theorem command_frame (body : List UInt8) (c : Ctx) :
    (command body c).me = c.me ∧ (command body c).host.env = c.host.env ∧
      (command body c).sect.isExitting = c.sect.isExitting := by
  by_cases htrans : cardCmd (u16 body 0) = .fileTransfer
  · obtain ⟨hkeeps, -⟩ := command_fileTransfer htrans c
    have hsame := sameCard_received body c
    exact ⟨hkeeps.me.trans hsame.me, hkeeps.env.trans hsame.env,
      hkeeps.isExitting.trans hsame.isExitting⟩
  have hkeeps := keeps_command body c
  by_cases hload : cardCmd (u16 body 0) = .load
  · rw [executeSwitch_load hload] at hkeeps
    obtain ⟨hme, henv, hexit, -⟩ :=
      openTmpFile_frame ((c.emit (.execute body)).onSect (loadSection body))
    have hswitch : (executeLoad body { proto := c.emit (.execute body) }).1.proto.me = c.me ∧
        (executeLoad body { proto := c.emit (.execute body) }).1.proto.host.env = c.host.env ∧
        (executeLoad body { proto := c.emit (.execute body) }).1.proto.sect.isExitting =
          c.sect.isExitting := by
      simp only [executeLoad]
      split_ifs
      · exact ⟨rfl, rfl, rfl⟩
      · exact ⟨hme, henv, hexit⟩
      · exact ⟨hme, henv, hexit⟩
    exact ⟨hkeeps.me.trans hswitch.1, hkeeps.env.trans hswitch.2.1,
      hkeeps.isExitting.trans hswitch.2.2⟩
  have hother := (keeps_executeSwitch body.length { proto := c.emit (.execute body) } hload
    htrans).trans hkeeps
  exact ⟨hother.me, hother.env, hother.isExitting⟩

/-- What no input changes. -/
theorem Input.effect_frame (i : Input) (c : Ctx) :
    (i.effect c).me = c.me ∧ (i.effect c).host.env = c.host.env ∧
      (i.effect c).sect.isExitting = c.sect.isExitting := by
  cases i with
  | cmd body => exact command_frame body c
  | keyRead rest =>
    rw [Input.effect]
    exact command_frame _ (c.onSect fun s => { s with isKeytoolCmd := true })
  | keyWrite rest =>
    rw [Input.effect]
    exact command_frame _ (c.onSect fun s => { s with isKeytoolCmd := true })
  | data frame => exact ⟨rfl, rfl, rfl⟩

theorem me_env_runCommands (bodies : List (List UInt8)) (c : Ctx) :
    (runCommands bodies c).me = c.me ∧ (runCommands bodies c).host.env = c.host.env := by
  induction bodies generalizing c with
  | nil => exact ⟨rfl, rfl⟩
  | cons body bodies ih =>
    obtain ⟨hme, henv⟩ := ih (command body c)
    obtain ⟨hme', henv', -⟩ := command_frame body c
    exact ⟨hme.trans hme', henv.trans henv'⟩

/-- The chunks before the last one leave the transfer open and start no load. -/
theorem Transferring.runCommands {len k : ℕ} {data : List UInt8} {bodies : List (List UInt8)}
    (h : Transferring c chip len k data) (hw : WritesAll c.host.env)
    (hchunks : ∀ j (hj : j < bodies.length), IsChunk bodies[j] chip ((k + j : ℕ) : ℤ))
    (hlt : (data ++ bodies.flatMap chunkPayload).length < len) :
    Transferring (runCommands bodies c) chip len (k + bodies.length)
        (data ++ bodies.flatMap chunkPayload) ∧
      (runCommands bodies c).host.eventsOf .loadStart = c.host.eventsOf .loadStart ∧
      (runCommands bodies c).host.exited = c.host.exited := by
  induction bodies generalizing c k data with
  | nil => simpa [M57.runCommands] using h
  | cons body bodies ih =>
    have hbody : IsChunk body chip k := hchunks 0 (Nat.zero_lt_succ _)
    have hrest (j : ℕ) (hj : j < bodies.length) :
        IsChunk bodies[j] chip ((k + 1 + j : ℕ) : ℤ) := by
      rw [show k + 1 + j = k + (j + 1) by omega]
      exact hchunks (j + 1) (Nat.succ_lt_succ hj)
    rw [List.flatMap_cons, ← List.append_assoc] at hlt
    obtain ⟨hnext, hevents, hexited⟩ := h.command_middle hw hbody.cmd hbody.chip hbody.sn
      hbody.payload (by rw [List.length_append] at hlt; omega)
    obtain ⟨hend, hevents', hexited'⟩ := ih hnext ((command_frame body c).2.1 ▸ hw) hrest hlt
    rw [List.flatMap_cons, ← List.append_assoc, List.length_cons,
      show k + (bodies.length + 1) = k + 1 + bodies.length by omega]
    exact ⟨hend, hevents'.trans hevents, hexited'.trans hexited⟩

/-- **A file sent correctly is loaded exactly once.** From whatever state the client and the host
are in, a LOAD with a valid chip id and the length of the file, chunks with serial numbers
`0, 1, 2, …` and a last one with serial number `-1` start no load before the last chunk and one
load with it, of the temporary file of the chip with the content of the file. -/
theorem load_once {load last : List UInt8} {bodies : List (List UInt8)} {f : List UInt8}
    (hlive : c.host.exited = false) (hw : WritesAll c.host.env)
    (hopen : ∀ t, c.host.env.openFails t = false) (hv : ioXdmaIsValidChipid c.host chip = true)
    (hload : IsLoad load chip f.length)
    (hchunks : ∀ k (hk : k < bodies.length), IsChunk bodies[k] chip k)
    (hlast : IsChunk last chip (-1)) (hf : (bodies ++ [last]).flatMap chunkPayload = f) :
    (runCommands (load :: bodies) c).host.exited = false ∧
      (runCommands (load :: bodies) c).host.eventsOf .loadStart = c.host.eventsOf .loadStart ∧
      (runCommands (load :: bodies ++ [last]) c).host.eventsOf .loadStart =
        c.host.eventsOf .loadStart ++ [.loadStart c.me (tmpPath chip) f] := by
  have hf' : bodies.flatMap chunkPayload ++ chunkPayload last = f := by
    rw [← hf, List.flatMap_append, List.flatMap_singleton]
  have hpos : 0 < (chunkPayload last).length := List.length_pos_iff.mpr hlast.payload
  obtain ⟨htrans, hevents, hexited⟩ := transferring_command_load hload hlive hv (hopen _)
  obtain ⟨hend, hevents', hexited'⟩ := htrans.runCommands ((command_frame load c).2.1 ▸ hw)
    (fun j hj => by rw [Nat.zero_add]; exact hchunks j hj)
    (by rw [List.nil_append, ← hf', List.length_append]; omega)
  rw [List.nil_append] at hend
  have hrun : runCommands (load :: bodies ++ [last]) c =
      command last (runCommands bodies (command load c)) := by
    rw [runCommands, List.foldl_append]
    rfl
  obtain ⟨hme, henv⟩ : (runCommands bodies (command load c)).me = c.me ∧
      (runCommands bodies (command load c)).host.env = c.host.env :=
    me_env_runCommands (load :: bodies) c
  have hw' : WritesAll (runCommands bodies (command load c)).host.env := henv ▸ hw
  obtain ⟨-, hstart⟩ := hend.command_last hw' hlast.cmd hlast.chip (.inl hlast.sn)
    (by
      by_contra hshort
      exact hlast.payload (List.drop_eq_nil_of_le (by omega)))
    (.inr (.inl hlast.sn))
  refine ⟨hexited'.trans hexited, hevents'.trans hevents, ?_⟩
  rw [hrun, hstart, hme, hf', hevents', hevents]

/-- A file of three bytes for chip `0x0502`, in a chunk of two bytes and one of one byte. -/
theorem load_once_two_chunks :
    (runCommands
        [[5, 0, 8, 0, 0, 0, 0, 0, 2, 5, 0, 0, 0, 0, 3, 0, 0, 0],
          [9, 0, 8, 0, 0, 0, 0, 0, 2, 5, 0, 0, 0xaa, 0xbb],
          [9, 0, 8, 0, 0, 0, 0, 0, 2, 5, 0xff, 0xff, 0xcc]]
        (.start .reliable fun i => i == 5)).host.eventsOf .loadStart =
      [.loadStart 0 (tmpPath 0x0502) [0xaa, 0xbb, 0xcc]] := by
  have hload : IsLoad [5, 0, 8, 0, 0, 0, 0, 0, 2, 5, 0, 0, 0, 0, 3, 0, 0, 0] 0x0502
      [(0xaa : UInt8), 0xbb, 0xcc].length := ⟨by decide, by decide, by decide⟩
  have hfirst : IsChunk [9, 0, 8, 0, 0, 0, 0, 0, 2, 5, 0, 0, 0xaa, 0xbb] 0x0502 0 :=
    ⟨by decide, by decide, by decide, by decide⟩
  have hlast : IsChunk [9, 0, 8, 0, 0, 0, 0, 0, 2, 5, 0xff, 0xff, 0xcc] 0x0502 (-1) :=
    ⟨by decide, by decide, by decide, by decide⟩
  have hchunks (k : ℕ)
      (hk : k < [[(9 : UInt8), 0, 8, 0, 0, 0, 0, 0, 2, 5, 0, 0, 0xaa, 0xbb]].length) :
      IsChunk [[9, 0, 8, 0, 0, 0, 0, 0, 2, 5, 0, 0, 0xaa, 0xbb]][k] 0x0502 k := by
    obtain rfl : k = 0 := Nat.lt_one_iff.mp hk
    exact hfirst
  exact (load_once (c := .start .reliable fun i => i == 5) rfl (fun _ _ => rfl) (fun _ => rfl)
    (by decide) hload hchunks hlast rfl).2.2

end M57Card.M57
