import M57Card.Receive.Phases

/-!
# Frames and reads

A client sends a list of well-formed frames. However their concatenation is cut into reads, the
receive loops do the same: every frame has its effect, in the order of the list, and nothing of
the bytes is left. The effect of a frame is stated without the loops (`frameEffect`), and a list
of frames is run until one of them ends the process (`runFrames`).

Between two reads a connection waits, either idle with the start of a frame in the buffer, or with
the start of a body collected. `Expecting` relates such a client to the bytes that are still to be
read and to the context that all frames together lead to; it is kept by the callback after every
read.

## Main definitions

* `IsFrame` : well-formed frames.
* `frameInput`, `frameEvent`, `frameEffect`, `runFrames` : what frames are to the protocol.
* `Expecting` : the invariant between reads.

## Main results

* `reaches_frame` : a complete frame at the start of the buffer is processed.
* `expecting_recv` : the invariant is kept by a read.
* `readAll_frames` : the result of a list of frames does not depend on the reads.
-/

namespace M57Card.M57

open Net Bytes StepMachine

/-! ### Frames -/

/-- A well-formed frame: a command with an extended header whose body fits into the body block, or
a data frame that fits into the receive buffer; a frame of the key tool is both. -/
structure IsFrame (f : List UInt8) : Prop where
  sync : u16 f 0 = M57_SYNC_HEADER
  len : u16 f 4 = f.length
  kind : byteAt f 3 % 16 = M57_CMD_TYPE ∧ 16 ≤ f.length ∧ f.length ≤ 8 + MAX_RECEIVE_DATA_LEN ∨
    byteAt f 3 % 16 = M57_DATA_TYPE ∧ 8 ≤ f.length ∧ f.length ≤ 32768 ∧
      ((m57ParseKeytoolData f f.length).isSome → f.length - 6 ≤ MAX_RECEIVE_DATA_LEN)

instance : DecidablePred IsFrame := fun f =>
  decidable_of_iff
    (u16 f 0 = M57_SYNC_HEADER ∧ u16 f 4 = f.length ∧
      (byteAt f 3 % 16 = M57_CMD_TYPE ∧ 16 ≤ f.length ∧ f.length ≤ 8 + MAX_RECEIVE_DATA_LEN ∨
        byteAt f 3 % 16 = M57_DATA_TYPE ∧ 8 ≤ f.length ∧ f.length ≤ 32768 ∧
          ((m57ParseKeytoolData f f.length).isSome → f.length - 6 ≤ MAX_RECEIVE_DATA_LEN)))
    ⟨fun h => ⟨h.1, h.2.1, h.2.2⟩, fun h => ⟨h.sync, h.len, h.kind⟩⟩

/-- What a frame is to the protocol. -/
def frameInput (f : List UInt8) : Input :=
  if byteAt f 3 % 16 = M57_CMD_TYPE then .cmd (f.drop 8)
  else
    match m57ParseKeytoolData f f.length with
    | some code => if code = CCT_KEY_READ_E2PROM then .keyRead (f.drop 8) else .keyWrite (f.drop 8)
    | none => .data f

/-- What becomes of a frame: a command is executed on its body, a frame of the key tool on its
command code and its bytes from offset 8 on, and any other data frame is forwarded. -/
def frameEvent (f : List UInt8) : Event := (frameInput f).event

/-- The effect of a frame on the protocol's side of the connection. -/
def frameEffect (f : List UInt8) (c : Ctx) : Ctx := (frameInput f).effect c

/-- The frames have their effects one after the other, until one of them ends the process. -/
def runFrames : List (List UInt8) → Ctx → Ctx
  | [], c => c
  | f :: fs, c =>
      if (frameEffect f c).host.exited then frameEffect f c else runFrames fs (frameEffect f c)

theorem frameEffect_of_cmd {f : List UInt8} (hcmd : byteAt f 3 % 16 = M57_CMD_TYPE) (c : Ctx) :
    frameEffect f c = command (f.drop 8) c := by
  rw [frameEffect, frameInput, if_pos hcmd]
  rfl

theorem frameEffect_of_keytool {f : List UInt8} {code : ℕ}
    (hcmd : ¬ byteAt f 3 % 16 = M57_CMD_TYPE)
    (hkey : m57ParseKeytoolData f f.length = some code) (c : Ctx) :
    frameEffect f c = command (le16 code ++ f.drop 8)
      (c.onSect fun s => { s with isKeytoolCmd := true }) := by
  rw [frameEffect, frameInput, if_neg hcmd, hkey]
  rcases m57ParseKeytoolData_code hkey with rfl | rfl <;> rfl

theorem frameEffect_of_data {f : List UInt8} (hcmd : ¬ byteAt f 3 % 16 = M57_CMD_TYPE)
    (hkey : m57ParseKeytoolData f f.length = none) (c : Ctx) :
    frameEffect f c = c.onHost (m57WriteDataToFpga f) := by
  rw [frameEffect, frameInput, if_neg hcmd, hkey]
  rfl

/-- An input has its one event, and no other frame is executed or forwarded with it. -/
theorem Input.eventsOf_effect (i : Input) (c : Ctx) :
    (i.effect c).host.eventsOf .frame = c.host.eventsOf .frame ++ [i.event] := by
  have hcmd (body : List UInt8) (c : Ctx) :
      (command body c).host.eventsOf .frame = c.host.eventsOf .frame ++ [.execute body] := by
    rw [(grows_command body c).eventsOf_eq (by decide), Host.eventsOf_emit]
    rfl
  cases i with
  | cmd body => exact hcmd body c
  | keyRead rest =>
    rw [Input.effect, hcmd, Input.event]
    rfl
  | keyWrite rest =>
    rw [Input.effect, hcmd, Input.event]
    rfl
  | data frame =>
    simp [Input.effect, Input.event, Ctx.onHost, m57WriteDataToFpga, Host.writeXdmaData,
      Host.eventsOf_emit, Event.kind]

/-- The events of a list of frames: one for each frame, as far as the process lives. -/
theorem eventsOf_runFrames (fs : List (List UInt8)) (c : Ctx) :
    ∃ done, done <+: fs ∧
      (runFrames fs c).host.eventsOf .frame = c.host.eventsOf .frame ++ done.map frameEvent ∧
      ((runFrames fs c).host.exited = false → done = fs) := by
  induction fs generalizing c with
  | nil => exact ⟨[], List.prefix_rfl, by simp [runFrames], fun _ => rfl⟩
  | cons f fs ih =>
    rw [runFrames]
    split_ifs with hex
    · refine ⟨[f], by simp, Input.eventsOf_effect _ c, fun hlive => ?_⟩
      rw [hlive] at hex
      exact absurd hex (by decide)
    · obtain ⟨done, hpre, hevents, hall⟩ := ih (frameEffect f c)
      refine ⟨f :: done, List.prefix_cons_inj f |>.mpr hpre, ?_, fun hlive => by rw [hall hlive]⟩
      rw [hevents, frameEffect, Input.eventsOf_effect, List.append_assoc, List.map_cons,
        List.singleton_append, frameEvent]

/-! ### Bodies in pieces -/

section Bodies

variable {cl : NetTcpClient Ctx} {got : List UInt8} {n : ℕ}

/-- A body that is not complete is kept, and all bytes are consumed. -/
theorem reaches_collecting_of_short (h : Collecting cl got n) (hshort : cl.us.length < n)
    (hfit : got.length + cl.us.length ≤ MAX_RECEIVE_DATA_LEN) :
    ∃ cl', Reaches (step m57Server) ⟨.read, cl⟩ ⟨.ret, cl'⟩ ∧
      Collecting cl' (got ++ cl.us) (n - cl.us.length) ∧ cl'.us = [] ∧
      cl'.conn.proto = cl.conn.proto := by
  by_cases hus : cl.us = []
  · exact ⟨cl, .single (readIter_of_nil hus), by simpa [hus] using h, hus, rfl⟩
  obtain ⟨cl₁, henter, hpoll₁, hus₁, hconn₁, -⟩ := h.enter hus
  obtain ⟨cl₂, htake, hpoll₂, hus₂, hconn₂, -⟩ :=
    hpoll₁.take (hus₁ ▸ hus) (by omega) (by rw [hus₁]; omega)
  rw [hus₁] at htake hpoll₂ hus₂
  have hnil : cl₂.us = [] := hus₂.trans (List.drop_eq_nil_of_le hshort.le)
  obtain ⟨cl₃, hsusp, hcoll, hnil₃, hconn₃, -⟩ := hpoll₂.suspend hnil (by omega)
  rw [List.take_of_length_le hshort.le] at hcoll
  refine ⟨cl₃, ?_, hcoll, hnil₃, by rw [hconn₃, hconn₂, hconn₁]⟩
  exact .head henter (.head htake (.head hsusp (.single (readIter_of_nil hnil₃))))

/-- A body that becomes complete is executed. -/
theorem reaches_command (h : Collecting cl got n) {b rest : List UInt8} (hus : cl.us = b ++ rest)
    (hb : b.length = n) (hne : cl.us ≠ []) (hfit : got.length + n ≤ MAX_RECEIVE_DATA_LEN) :
    ∃ cl', Reaches (step m57Server) ⟨.read, cl⟩
        ⟨if (command (got ++ b) cl.conn.proto).host.exited then .exit else .read, cl'⟩ ∧
      cl'.conn.proto = command (got ++ b) cl.conn.proto ∧ cl'.us = rest ∧
      ((command (got ++ b) cl.conn.proto).host.exited = false → cl'.IsIdle) := by
  have hlen : cl.us.length = n + rest.length := by rw [hus, List.length_append, hb]
  obtain ⟨cl₁, henter, hpoll₁, hus₁, hconn₁, -⟩ := h.enter hne
  by_cases hn : n = 0
  · subst hn
    obtain rfl : b = [] := List.length_eq_zero_iff.mp hb
    obtain ⟨cl₂, hfin, hproto, hus₂, -, hidle⟩ := hpoll₁.finish
    rw [hconn₁, ← List.append_nil got] at hfin hproto hidle
    exact ⟨cl₂, .head henter (.single hfin), hproto, by rw [hus₂, hus₁, hus, List.nil_append],
      hidle⟩
  obtain ⟨cl₂, htake, hpoll₂, hus₂, hconn₂, -⟩ :=
    hpoll₁.take (hus₁ ▸ hne) hn (by rw [hus₁]; omega)
  have hzero : n - cl.us.length = 0 := by omega
  rw [hus₁, hzero] at htake hpoll₂
  rw [hus₁] at hus₂
  obtain ⟨cl₃, hfin, hproto, hus₃, -, hidle⟩ := hpoll₂.finish
  have hgot : cl.us.take n = b := by rw [hus, ← hb, List.take_left]
  rw [hgot, hconn₂, hconn₁] at hfin hproto hidle
  refine ⟨cl₃, .head henter (.head htake (.single hfin)), hproto, ?_, hidle⟩
  rw [hus₃, hus₂, hus, ← hb, List.drop_left]

end Bodies

/-! ### A frame at the start of the buffer -/

theorem IsFrame.eight_le {f : List UInt8} (hf : IsFrame f) : 8 ≤ f.length := by
  rcases hf.kind with h | h <;> omega

section Headers

variable {f b : List UInt8}

/-- Bytes that agree with a frame on its header have the fields of that header. -/
theorem IsFrame.fields (hf : IsFrame f) (hb : b.take 8 = f.take 8) :
    u16 b 0 = M57_SYNC_HEADER ∧ byteAt b 3 = byteAt f 3 ∧ u16 b 4 = f.length := by
  have hu (i : ℕ) (hi : i + 1 < 8) : u16 b i = u16 f i := by
    rw [← u16_take hi, hb, u16_take hi]
  refine ⟨(hu 0 (by omega)).trans hf.sync, ?_, (hu 4 (by omega)).trans hf.len⟩
  rw [← byteAt_take (show 3 < 8 by omega), hb, byteAt_take (by omega)]

/-- The header of a command is accepted as soon as it is there. -/
theorem IsFrame.headerKind_cmd (hf : IsFrame f) (hcmd : byteAt f 3 % 16 = M57_CMD_TYPE)
    (hb : b.take 8 = f.take 8) (hlen : 8 ≤ b.length) : headerKind b = .cmd (f.length - 8) := by
  obtain ⟨hsync, htype, hflen⟩ := hf.fields hb
  have hshort : ¬ b.length < HEADER_LEN := not_lt.mpr hlen
  have hle : HEADER_LEN ≤ f.length := hf.eight_le
  simp only [headerKind, hshort, hsync, htype, hcmd, hflen, hle, if_true, if_false, ne_eq,
    not_true_eq_false]
  rfl

/-- A data frame is waited for. -/
theorem IsFrame.headerKind_wait (hf : IsFrame f) (hdata : byteAt f 3 % 16 = M57_DATA_TYPE)
    (hb : b.take 8 = f.take 8) (hlen : 8 ≤ b.length) (hlt : b.length < f.length) :
    headerKind b = .wait := by
  obtain ⟨hsync, htype, hflen⟩ := hf.fields hb
  have hshort : ¬ b.length < HEADER_LEN := not_lt.mpr hlen
  have hne : ¬ M57_DATA_TYPE = M57_CMD_TYPE := by decide
  simp only [headerKind, hshort, hsync, htype, hdata, hflen, hlt, hne, if_true, if_false, ne_eq,
    not_true_eq_false]

/-- A complete data frame is recognised by its own bytes. -/
theorem IsFrame.headerKind_data (hf : IsFrame f) (hdata : byteAt f 3 % 16 = M57_DATA_TYPE)
    (rest : List UInt8) :
    headerKind (f ++ rest) =
      match m57ParseKeytoolData f f.length with
      | some code => .keytool code (f.length - 6)
      | none => .data f.length := by
  have h8 := hf.eight_le
  have hb : (f ++ rest).take 8 = f.take 8 := List.take_append_of_le_length h8
  have hparse : m57ParseKeytoolData (f ++ rest) f.length = m57ParseKeytoolData f f.length := by
    rw [← m57ParseKeytoolData_take, List.take_left]
  obtain ⟨hsync, htype, hflen⟩ := hf.fields hb
  have hlen : (f ++ rest).length = f.length + rest.length := List.length_append
  have hshort : ¬ (f ++ rest).length < HEADER_LEN := by
    rw [hlen]
    exact not_lt.mpr (h8.trans (Nat.le_add_right _ _))
  have hne : ¬ M57_DATA_TYPE = M57_CMD_TYPE := by decide
  have hfull : ¬ (f ++ rest).length < f.length := by omega
  cases hcode : m57ParseKeytoolData f f.length with
  | none =>
    simp only [headerKind, hshort, hsync, htype, hdata, hflen, hfull, hparse, hcode, hne, if_true,
      if_false, ne_eq, not_true_eq_false]
  | some code =>
    simp only [headerKind, hshort, hsync, htype, hdata, hflen, hfull, hparse, hcode, hne, if_true,
      if_false, ne_eq, not_true_eq_false]

end Headers

/-- A complete frame at the start of the buffer has its effect and is consumed. -/
theorem reaches_frame {cl : NetTcpClient Ctx} {f rest : List UInt8} (h : cl.IsIdle)
    (hlive : cl.conn.proto.host.exited = false) (hf : IsFrame f) (hus : cl.us = f ++ rest) :
    ∃ cl', Reaches (step m57Server) ⟨.read, cl⟩
        ⟨if (frameEffect f cl.conn.proto).host.exited then .exit else .read, cl'⟩ ∧
      cl'.conn.proto = frameEffect f cl.conn.proto ∧ cl'.us = rest ∧
      ((frameEffect f cl.conn.proto).host.exited = false → cl'.IsIdle) := by
  have h8 := hf.eight_le
  have hdrop : cl.us.drop 8 = f.drop 8 ++ rest := by
    rw [hus, List.drop_append_of_le_length h8]
  by_cases hcmd : byteAt f 3 % 16 = M57_CMD_TYPE
  · have hbound : 16 ≤ f.length ∧ f.length ≤ 8 + MAX_RECEIVE_DATA_LEN := by
      rcases hf.kind with hk | hk
      · exact hk.2
      · exact absurd (hcmd.symm.trans hk.1) (by decide)
    have hk : headerKind cl.us = .cmd (f.length - 8) :=
      hf.headerKind_cmd hcmd (by rw [hus, List.take_append_of_le_length h8])
        (by rw [hus, List.length_append]; omega)
    obtain ⟨cl₁, hread, hcoll, hus₁, hproto₁, -⟩ := readIter_cmd h hk
    have hne : cl₁.us ≠ [] := List.ne_nil_of_length_pos (by
      rw [hus₁.trans hdrop, List.length_append, List.length_drop]
      omega)
    obtain ⟨cl₂, hreach, hproto₂, hus₂, hidle⟩ :=
      reaches_command hcoll (hus₁.trans hdrop) (by simp) hne
        (by simp only [List.length_nil]; omega)
    rw [hproto₁, List.nil_append, ← frameEffect_of_cmd hcmd] at hreach hproto₂ hidle
    exact ⟨cl₂, .head hread hreach, hproto₂, hus₂, hidle⟩
  have hdata : byteAt f 3 % 16 = M57_DATA_TYPE := by
    rcases hf.kind with hk | hk
    · exact absurd hk.1 hcmd
    · exact hk.1
  have hk : headerKind cl.us = _ := hus ▸ hf.headerKind_data hdata rest
  cases hkey : m57ParseKeytoolData f f.length with
  | some code =>
    have hbound : f.length - 6 ≤ MAX_RECEIVE_DATA_LEN := by
      rcases hf.kind with hk | hk
      · exact absurd hk.1 hcmd
      · exact hk.2.2.2 (by rw [hkey]; rfl)
    rw [hkey] at hk
    obtain ⟨cl₁, hread, hcoll, hus₁, hproto₁, -⟩ := readIter_keytool h hk
    have hlen : (le16 code ++ f.drop 8).length = f.length - 6 := by
      rw [List.length_append, length_le16, List.length_drop]
      omega
    obtain ⟨cl₂, hreach, hproto₂, hus₂, hidle⟩ :=
      reaches_command hcoll (hus₁.trans (by rw [hdrop, List.append_assoc])) hlen
        (by simp [hus₁, le16])
        (by simp only [List.length_nil]; omega)
    rw [hproto₁, List.nil_append, ← frameEffect_of_keytool hcmd hkey] at hreach hproto₂ hidle
    exact ⟨cl₂, .head hread hreach, hproto₂, hus₂, hidle⟩
  | none =>
    rw [hkey] at hk
    obtain ⟨cl₁, hread, hidle, hus₁, hproto₁, -⟩ := readIter_data h hk
    have heff := frameEffect_of_data hcmd hkey cl.conn.proto
    have hex : (frameEffect f cl.conn.proto).host.exited = false := by
      rw [heff]
      exact hlive
    rw [hus, List.take_left, ← heff] at hproto₁
    rw [hus, List.drop_left] at hus₁
    refine ⟨cl₁, ?_, hproto₁, hus₁, fun _ => hidle⟩
    rw [hex]
    exact .single hread

/-! ### Between reads -/

/-- A client that waits for the bytes `rem`, after which the protocol's side will be `final`. -/
inductive Expecting (cl : NetTcpClient Ctx) (rem : List UInt8) (final : Ctx) : Prop where
  /-- the buffer has less than a frame -/
  | idle (fs : List (List UInt8)) (hidle : cl.IsIdle) (hwait : headerKind cl.us = .wait)
      (hfs : ∀ f ∈ fs, IsFrame f) (hrem : cl.us ++ rem = fs.flatten)
      (hfinal : runFrames fs cl.conn.proto = final)
  /-- a body has been collected in part -/
  | body (got b : List UInt8) (fs : List (List UInt8)) (hcoll : Collecting cl got b.length)
      (hus : cl.us = []) (hb : b ≠ []) (hfit : got.length + b.length ≤ MAX_RECEIVE_DATA_LEN)
      (hfs : ∀ f ∈ fs, IsFrame f) (hrem : rem = b ++ fs.flatten)
      (hfinal : (if (command (got ++ b) cl.conn.proto).host.exited
        then command (got ++ b) cl.conn.proto
        else runFrames fs (command (got ++ b) cl.conn.proto)) = final)

/-- The end of a callback: the client waits for the bytes `rem`, or the process has ended. -/
def Awaits (m : Machine Ctx) (rem : List UInt8) (final : Ctx) : Prop :=
  m.pc = .ret ∧ m.cl.conn.proto.host.exited = false ∧ Expecting m.cl rem final ∨
    m.pc = .exit ∧ m.cl.conn.proto = final ∧ final.host.exited = true

/-- The part of a frame at the end of the buffer is kept, as it is or as a body. -/
theorem reaches_awaits_of_part {cl : NetTcpClient Ctx} {f tail : List UInt8}
    {fs : List (List UInt8)} (h : cl.IsIdle) (hlive : cl.conn.proto.host.exited = false)
    (hf : IsFrame f) (hfs : ∀ g ∈ fs, IsFrame g) (hpart : f = cl.us ++ tail) (htail : tail ≠ []) :
    ∃ m, Reaches (step m57Server) ⟨.read, cl⟩ m ∧
      Awaits m (tail ++ fs.flatten) (runFrames (f :: fs) cl.conn.proto) := by
  have htl : 0 < tail.length := List.length_pos_iff.mpr htail
  have hlen : f.length = cl.us.length + tail.length := by rw [hpart, List.length_append]
  by_cases hwait : headerKind cl.us = .wait
  · obtain ⟨cl₁, hread, hidle, hus₁, hproto₁, -⟩ := readIter_wait h hwait
    refine ⟨_, .single hread, .inl ⟨rfl, by rw [hproto₁]; exact hlive, ?_⟩⟩
    refine .idle (f :: fs) hidle (by rw [hus₁]; exact hwait) ?_ ?_ (by rw [hproto₁])
    · exact List.forall_mem_cons.mpr ⟨hf, hfs⟩
    · rw [hus₁, List.flatten_cons, hpart, List.append_assoc]
  have h8 : 8 ≤ cl.us.length := by
    by_contra hlt
    exact hwait (if_pos (not_le.mp hlt))
  have htake : cl.us.take 8 = f.take 8 := by rw [hpart, List.take_append_of_le_length h8]
  have hcmd : byteAt f 3 % 16 = M57_CMD_TYPE := by
    rcases hf.kind with hk | hk
    · exact hk.1
    · exact absurd (hf.headerKind_wait hk.1 htake h8 (by omega)) hwait
  have hbound : 16 ≤ f.length ∧ f.length ≤ 8 + MAX_RECEIVE_DATA_LEN := by
    rcases hf.kind with hk | hk
    · exact hk.2
    · exact absurd (hcmd.symm.trans hk.1) (by decide)
  obtain ⟨cl₁, hread, hcoll, hus₁, hproto₁, -⟩ :=
    readIter_cmd h (hf.headerKind_cmd hcmd htake h8)
  have hl₁ : cl₁.us.length = cl.us.length - 8 := by
    rw [hus₁, List.length_drop]
    rfl
  obtain ⟨cl₂, hreach, hcoll₂, hus₂, hproto₂⟩ :=
    reaches_collecting_of_short hcoll (by omega) (by simp only [List.length_nil]; omega)
  have hrest : f.length - 8 - cl₁.us.length = tail.length := by omega
  have hbody : cl₁.us ++ tail = f.drop 8 := by
    rw [hus₁, hpart, List.drop_append_of_le_length h8]
    rfl
  rw [List.nil_append, hrest] at hcoll₂
  rw [hproto₁] at hproto₂
  refine ⟨_, .head hread hreach, .inl ⟨rfl, by rw [hproto₂]; exact hlive, ?_⟩⟩
  refine .body cl₁.us tail fs hcoll₂ hus₂ htail (by omega) hfs rfl ?_
  rw [hproto₂, hbody, runFrames, frameEffect_of_cmd hcmd]

/-- All complete frames in the buffer have their effect. -/
theorem reaches_awaits_of_idle {fs : List (List UInt8)} (hfs : ∀ f ∈ fs, IsFrame f)
    {cl : NetTcpClient Ctx} (h : cl.IsIdle) (hlive : cl.conn.proto.host.exited = false)
    {rem : List UInt8} (hrem : cl.us ++ rem = fs.flatten) :
    ∃ m, Reaches (step m57Server) ⟨.read, cl⟩ m ∧ Awaits m rem (runFrames fs cl.conn.proto) := by
  induction fs generalizing cl with
  | nil =>
    obtain ⟨hus, -⟩ := List.append_eq_nil_iff.mp hrem
    refine ⟨_, .single (readIter_of_nil hus), .inl ⟨rfl, hlive, ?_⟩⟩
    exact .idle [] h (by rw [hus]; rfl) (by simp) hrem rfl
  | cons f fs ih =>
    obtain ⟨hf, hfs⟩ := List.forall_mem_cons.mp hfs
    have hwhole (rest : List UInt8) (hus : cl.us = f ++ rest) (hrest : rest ++ rem = fs.flatten) :
        ∃ m, Reaches (step m57Server) ⟨.read, cl⟩ m ∧
          Awaits m rem (runFrames (f :: fs) cl.conn.proto) := by
      obtain ⟨cl₁, hreach, hproto, hus₁, hidle⟩ := reaches_frame h hlive hf hus
      rw [runFrames]
      cases hex : (frameEffect f cl.conn.proto).host.exited with
      | true =>
        rw [hex] at hreach
        exact ⟨_, hreach, .inr ⟨rfl, hproto, hex⟩⟩
      | false =>
        rw [hex] at hreach
        obtain ⟨m, hm, hawait⟩ :=
          ih hfs (hidle hex) (by rw [hproto]; exact hex) (by rw [hus₁]; exact hrest)
        rw [hproto] at hawait
        exact ⟨m, hreach.trans hm, hawait⟩
    rw [List.flatten_cons] at hrem
    rcases List.append_eq_append_iff.mp hrem with ⟨tail, hpart, htail⟩ | ⟨rest, hus, hrest⟩
    · by_cases hnil : tail = []
      · subst hnil
        rw [List.append_nil] at hpart
        exact hwhole [] (by rw [hpart, List.append_nil]) htail
      · rw [htail]
        exact reaches_awaits_of_part h hlive hf hfs hpart hnil
    · exact hwhole rest hus hrest.symm

/-- A read keeps the client waiting for what is left, or a frame ends the process. -/
theorem expecting_recv {cl : NetTcpClient Ctx} {chunk rem : List UInt8} {final : Ctx}
    (h : Expecting cl (chunk ++ rem) final) (hlive : cl.conn.proto.host.exited = false) :
    ∃ m, Reaches (step m57Server) (recv chunk cl) m ∧ Awaits m rem final := by
  cases h with
  | idle fs hidle hwait hfs hrem hfinal =>
    subst hfinal
    have hidle₀ : (recv chunk cl).cl.IsIdle :=
      ⟨hidle.state, hidle.request, hidle.dispatch, hidle.response⟩
    refine reaches_awaits_of_idle hfs hidle₀ hlive ?_
    rw [← hrem, ← List.append_assoc]
    rfl
  | body got b fs hcoll hus hb hfit hfs hrem hfinal =>
    subst hfinal
    have hcoll₀ : Collecting (recv chunk cl).cl got b.length :=
      ⟨⟨hcoll.state, hcoll.dataType, hcoll.contentLength, hcoll.postLen, hcoll.body,
        hcoll.response, hcoll.bound⟩, hcoll.resume⟩
    have hus₀ : (recv chunk cl).cl.us = chunk := by
      change cl.us ++ chunk = chunk
      rw [hus, List.nil_append]
    have hwhole (rest : List UInt8) (hchunk : chunk = b ++ rest)
        (hrest : rest ++ rem = fs.flatten) :
        ∃ m, Reaches (step m57Server) (recv chunk cl) m ∧ Awaits m rem
          (if (command (got ++ b) cl.conn.proto).host.exited then command (got ++ b) cl.conn.proto
            else runFrames fs (command (got ++ b) cl.conn.proto)) := by
      have hne : (recv chunk cl).cl.us ≠ [] := by
        rw [hus₀, hchunk]
        exact List.append_ne_nil_of_left_ne_nil hb rest
      obtain ⟨cl₁, hreach, hproto, hus₁, hidle⟩ :=
        reaches_command hcoll₀ (hus₀.trans hchunk) rfl hne hfit
      change cl₁.conn.proto = command (got ++ b) cl.conn.proto at hproto
      cases hex : (command (got ++ b) cl.conn.proto).host.exited with
      | true =>
        have hreach' : Reaches (step m57Server) (recv chunk cl) ⟨.exit, cl₁⟩ := by
          simpa [recv, hex] using hreach
        exact ⟨_, hreach', .inr ⟨rfl, hproto, hex⟩⟩
      | false =>
        have hreach' : Reaches (step m57Server) (recv chunk cl) ⟨.read, cl₁⟩ := by
          simpa [recv, hex] using hreach
        obtain ⟨m, hm, hawait⟩ := reaches_awaits_of_idle hfs (hidle hex)
          (by rw [hproto]; exact hex) (by rw [hus₁]; exact hrest)
        rw [hproto] at hawait
        exact ⟨m, hreach'.trans hm, hawait⟩
    rcases List.append_eq_append_iff.mp hrem with ⟨tail, hpart, htail⟩ | ⟨rest, hchunk, hrest⟩
    · by_cases hnil : tail = []
      · subst hnil
        rw [List.append_nil] at hpart
        exact hwhole [] (by rw [hpart, List.append_nil]) htail
      · have htl : 0 < tail.length := List.length_pos_iff.mpr hnil
        have hlen : b.length = chunk.length + tail.length := by rw [hpart, List.length_append]
        obtain ⟨cl₁, hreach, hcoll₁, hus₁, hproto⟩ :=
          reaches_collecting_of_short hcoll₀ (by rw [hus₀]; omega) (by rw [hus₀]; omega)
        have hmiss : b.length - chunk.length = tail.length := by omega
        rw [hus₀, hmiss] at hcoll₁
        change cl₁.conn.proto = cl.conn.proto at hproto
        refine ⟨_, hreach, .inl ⟨rfl, by rw [hproto]; exact hlive, ?_⟩⟩
        refine .body (got ++ chunk) tail fs hcoll₁ hus₁ hnil ?_ hfs htail ?_
        · rw [List.length_append]
          omega
        · rw [hproto, List.append_assoc, ← hpart]
    · exact hwhole rest hchunk hrest.symm

/-- When nothing is left to be read, all bytes are consumed. -/
theorem Expecting.of_nil {cl : NetTcpClient Ctx} {final : Ctx} (h : Expecting cl [] final) :
    cl.IsIdle ∧ cl.us = [] ∧ cl.conn.proto = final := by
  cases h with
  | idle fs hidle hwait hfs hrem hfinal =>
    rw [List.append_nil] at hrem
    cases fs with
    | nil => exact ⟨hidle, hrem, hfinal⟩
    | cons f fs =>
      -- a complete frame is not waited for
      exfalso
      have hf := hfs f List.mem_cons_self
      have h8 := hf.eight_le
      rw [hrem, List.flatten_cons] at hwait
      rcases hf.kind with hk | hk
      · have hcmd := hf.headerKind_cmd hk.1 (List.take_append_of_le_length h8)
          (b := f ++ fs.flatten) (by rw [List.length_append]; omega)
        rw [hcmd] at hwait
        exact HeaderKind.noConfusion hwait
      · rw [hf.headerKind_data hk.1] at hwait
        cases hkey : m57ParseKeytoolData f f.length <;> rw [hkey] at hwait <;>
          exact HeaderKind.noConfusion hwait
  | body got b fs hcoll hus hb hfit hfs hrem hfinal =>
    exact absurd (List.append_eq_nil_iff.mp hrem.symm).1 hb

/-! ### All reads -/

/-- Successive reads of the bytes that a client waits for. -/
theorem readAll_of_expecting {chunks : List (List UInt8)} {cl : NetTcpClient Ctx} {final : Ctx}
    (h : Expecting cl chunks.flatten final) (hlive : cl.conn.proto.host.exited = false) :
    ∃ m, ReadAll m57Server chunks cl m ∧ m.cl.conn.proto = final ∧
      (m.pc = .exit ∧ final.host.exited = true ∨
        m.pc = .ret ∧ final.host.exited = false ∧ m.cl.IsIdle ∧ m.cl.us = []) := by
  induction chunks generalizing cl with
  | nil =>
    obtain ⟨hidle, hus, hproto⟩ := Expecting.of_nil h
    exact ⟨⟨.ret, cl⟩, rfl, hproto, .inr ⟨rfl, hproto ▸ hlive, hidle, hus⟩⟩
  | cons chunk chunks ih =>
    obtain ⟨m₁, hreach, hawait⟩ := expecting_recv h hlive
    rcases hawait with ⟨hpc, hlive₁, hexp⟩ | ⟨hpc, hproto, hex⟩
    · obtain ⟨m, hread, hend⟩ := ih hexp hlive₁
      exact ⟨m, ⟨m₁, hreach, .inr ⟨hpc, hread⟩⟩, hend⟩
    · exact ⟨m₁, ⟨m₁, hreach, .inl ⟨hpc, rfl⟩⟩, hproto, .inl ⟨hpc, hex⟩⟩

/-- **The result of a list of frames does not depend on the reads.** Successive reads of the
concatenation of well-formed frames end in one way, whatever the reads are: the protocol's side is
the one that the frames have by themselves, the frames executed or forwarded are the frames of the
list in their order, and no byte and nothing of a request is left. Where a frame ends the process,
the frames up to that one have been executed or forwarded. -/
theorem readAll_frames (fs : List (List UInt8)) (hfs : ∀ f ∈ fs, IsFrame f)
    (chunks : List (List UInt8)) (hsplit : chunks.flatten = fs.flatten) (c : Ctx)
    (hlive : c.host.exited = false) :
    ∃ m, (∀ m', ReadAll m57Server chunks (.fresh c) m' ↔ m' = m) ∧
      m.cl.conn.proto = runFrames fs c ∧
      (m.pc = .ret ∧ (runFrames fs c).host.exited = false ∧ m.cl.us = [] ∧ m.cl.IsIdle ∧
          m.cl.conn.proto.host.eventsOf .frame =
            c.host.eventsOf .frame ++ fs.map frameEvent ∨
        m.pc = .exit ∧ (runFrames fs c).host.exited = true ∧ ∃ done, done <+: fs ∧
          m.cl.conn.proto.host.eventsOf .frame =
            c.host.eventsOf .frame ++ done.map frameEvent) := by
  have hstart : Expecting (.fresh c) chunks.flatten (runFrames fs c) :=
    .idle fs (isIdle_fresh c) rfl hfs hsplit rfl
  obtain ⟨m, hread, hproto, hend⟩ := readAll_of_expecting hstart hlive
  obtain ⟨done, hpre, hevents, hall⟩ := eventsOf_runFrames fs c
  refine ⟨m, fun m' => ⟨fun hm' => hm'.unique _ hread, fun heq => heq ▸ hread⟩, hproto, ?_⟩
  rcases hend with ⟨hpc, hex⟩ | ⟨hpc, hex, hidle, hus⟩
  · exact .inr ⟨hpc, hex, done, hpre, by rw [hproto, hevents]⟩
  · exact .inl ⟨hpc, hex, hus, hidle, by rw [hproto, hevents, hall hex]⟩

end M57Card.M57
