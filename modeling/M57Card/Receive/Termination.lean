import M57Card.Receive.Bounds
import M57Card.Receive.Frames

/-!
# Termination of the receive loops

A callback ends when every iteration of its loops makes progress. Two iterations do not: a data
frame whose length field is zero is passed through and consumes nothing (`m57.c`, lines 240–283),
and a body that does not fit into the block is offered to `tcp_load_data` again and again, because
its error path takes no byte (`net_tcp.c`, lines 182–184 and 217–221). This file shows that these
are the only ones: a callback terminates exactly if the walk over the frames in the buffer meets
neither.

## Main definitions

* `Stalls` : the walk over the frames in the buffer meets an iteration without progress.
* `pending` : the body that a client is collecting.
* `Progress` : an iteration consumes a byte or leaves its loop.

## Main results

* `not_terminates_of_stalls`, `terminates_of_not_stalls`.
* `advances_iff_not_stalls` : when a callback terminates.
-/

namespace M57Card.M57

open Net Bytes StepMachine

/-- The walk over the frames in the buffer `b` meets an iteration without progress. The walk
starts at a header (`none`) or inside a body, with the bytes collected and the number of bytes
missing; the context is the one of the protocol at that place, and a command that ends the process
ends the walk. -/
inductive Stalls : Ctx → Option (List UInt8 × ℕ) → List UInt8 → Prop where
  /-- a data frame of length zero -/
  | zero {c : Ctx} {b : List UInt8} (hk : headerKind b = .data 0) : Stalls c none b
  /-- more bytes for a body than the block has room for -/
  | overrun {c : Ctx} {got b : List UInt8} {n : ℕ} (hn : n ≠ 0) (hb : b ≠ [])
      (hover : MAX_RECEIVE_DATA_LEN < got.length + min n b.length) : Stalls c (some (got, n)) b
  /-- behind a data frame -/
  | data {c : Ctx} {b : List UInt8} {len : ℕ} (hk : headerKind b = .data len)
      (hrest : Stalls (c.onHost (m57WriteDataToFpga (b.take len))) none (b.drop len)) :
      Stalls c none b
  /-- in or behind a command -/
  | cmd {c : Ctx} {b : List UInt8} {n : ℕ} (hk : headerKind b = .cmd n)
      (hrest : Stalls c (some ([], n)) (b.drop HEADER_LEN)) : Stalls c none b
  /-- in or behind a frame of the key tool -/
  | keytool {c : Ctx} {b : List UInt8} {code n : ℕ} (hk : headerKind b = .keytool code n)
      (hrest : Stalls (c.onSect fun s => { s with isKeytoolCmd := true }) (some ([], n))
        (le16 code ++ b.drop 8)) : Stalls c none b
  /-- behind a body that becomes complete -/
  | body {c : Ctx} {got b : List UInt8} {n : ℕ} (hb : b ≠ []) (hn : n ≤ b.length)
      (hfit : got.length + n ≤ MAX_RECEIVE_DATA_LEN)
      (hlive : (command (got ++ b.take n) c).host.exited = false)
      (hrest : Stalls (command (got ++ b.take n) c) none (b.drop n)) : Stalls c (some (got, n)) b

/-- The body that a client is collecting, with the number of bytes missing. -/
def pending (cl : NetTcpClient Ctx) : Option (List UInt8 × ℕ) :=
  if cl.state = .data then
    some (cl.dispatch.body.getD [],
      if 0 < cl.request.remainLength then cl.request.remainLength else cl.request.contentLength)
  else
    none

theorem IsIdle.pending {cl : NetTcpClient Ctx} (h : cl.IsIdle) : pending cl = none := by
  rw [M57.pending, h.state]
  rfl

theorem Collecting.pending {cl : NetTcpClient Ctx} {got : List UInt8} {n : ℕ}
    (h : Collecting cl got n) : pending cl = some (got, n) := by
  rw [M57.pending, h.state, if_pos rfl, h.body, h.resume]

/-- The phase of a client at the head of the outer loop is decided by the body it is collecting. -/
theorem Phased.isIdle {cl : NetTcpClient Ctx} (h : Phased ⟨.read, cl⟩) (hpos : pending cl = none) :
    cl.IsIdle := by
  rcases h with hidle | ⟨got, n, hcoll⟩
  · exact hidle
  · exact absurd (hpos.symm.trans hcoll.pending) (by simp)

theorem Phased.collecting {cl : NetTcpClient Ctx} {got : List UInt8} {n : ℕ}
    (h : Phased ⟨.read, cl⟩) (hpos : pending cl = some (got, n)) : Collecting cl got n := by
  rcases h with hidle | ⟨got', n', hcoll⟩
  · exact absurd (hpos.symm.trans (IsIdle.pending hidle)) (by simp)
  · obtain ⟨rfl, rfl⟩ : got = got' ∧ n = n' := by simpa using hpos.symm.trans hcoll.pending
    exact hcoll

/-! ### Iterations without progress -/

/-- A data frame of length zero is looked at for ever. -/
theorem not_terminates_of_zero {cl : NetTcpClient Ctx} (h : cl.IsIdle)
    (hk : headerKind cl.us = .data 0) :
    ¬ Terminates (step m57Server) Machine.IsFinal ⟨.read, cl⟩ := by
  refine not_terminates_of_invariant
    (I := fun m => m.pc = .read ∧ m.cl.IsIdle ∧ headerKind m.cl.us = .data 0) ?_ ?_ ⟨rfl, h, hk⟩
  · rintro ⟨pc, cl⟩ ⟨rfl, hidle, hk⟩
    obtain ⟨cl', heq, hidle', hus, -⟩ := readIter_data hidle hk
    rw [step_read, heq]
    exact ⟨rfl, hidle', by rw [hus]; exact hk⟩
  · rintro ⟨pc, cl⟩ ⟨rfl, -, -⟩
    simp [Machine.IsFinal]

/-- A body that does not fit is offered for ever. -/
theorem not_terminates_of_overrun {cl : NetTcpClient Ctx} {n : ℕ} (hn : n ≠ 0) (hus : cl.us ≠ [])
    (hover : MAX_RECEIVE_DATA_LEN < cl.dispatch.postLen + min n cl.us.length) :
    ¬ Terminates (step m57Server) Machine.IsFinal ⟨.poll n, cl⟩ := by
  refine not_terminates_of_invariant
    (I := fun m => m.pc = .poll n ∧ m.cl.us ≠ [] ∧
      MAX_RECEIVE_DATA_LEN < m.cl.dispatch.postLen + min n m.cl.us.length) ?_ ?_ ⟨rfl, hus, hover⟩
  · rintro ⟨pc, cl⟩ ⟨rfl, hus, hover⟩
    obtain ⟨cl', heq, hus', hpost, -⟩ := pollIter_overrun hus hn hover
    rw [step_poll, heq]
    refine ⟨rfl, by rw [hus']; exact hus, ?_⟩
    rw [hus', hpost]
    exact Nat.lt_add_right _ hover
  · rintro ⟨pc, cl⟩ ⟨rfl, -, -⟩
    simp [Machine.IsFinal]

/-- A walk that stalls is a callback that does not terminate. -/
theorem not_terminates_of_stalls {c : Ctx} {pos : Option (List UInt8 × ℕ)} {b : List UInt8}
    (h : Stalls c pos b) {cl : NetTcpClient Ctx} (hphase : Phased ⟨.read, cl⟩)
    (hc : cl.conn.proto = c) (hpos : pending cl = pos) (hus : cl.us = b) :
    ¬ Terminates (step m57Server) Machine.IsFinal ⟨.read, cl⟩ := by
  have hfix (m : Machine Ctx) (hm : m.IsFinal) : step m57Server m = m := step_of_isFinal _ hm
  induction h generalizing cl with
  | zero hk => exact not_terminates_of_zero (hphase.isIdle hpos) (hus ▸ hk)
  | @overrun c got b n hn hb hover =>
    obtain ⟨cl₁, heq, hpoll, hus₁, -⟩ := (hphase.collecting hpos).enter (hus ▸ hb)
    have hreach : Reaches (step m57Server) ⟨.read, cl⟩ ⟨.poll n, cl₁⟩ := .single heq
    rw [hreach.terminates_iff hfix]
    rw [hus] at hus₁
    exact not_terminates_of_overrun hn (hus₁ ▸ hb) (by rw [hpoll.postLen, hus₁]; exact hover)
  | data hk hrest ih =>
    subst hc hus
    obtain ⟨cl₁, heq, hidle, hus₁, hproto, -⟩ := readIter_data (hphase.isIdle hpos) hk
    have hreach : Reaches (step m57Server) ⟨.read, cl⟩ ⟨.read, cl₁⟩ := .single heq
    rw [hreach.terminates_iff hfix]
    exact ih (.inl hidle) hproto (IsIdle.pending hidle) hus₁
  | cmd hk hrest ih =>
    subst hc hus
    obtain ⟨cl₁, heq, hcoll, hus₁, hproto, -⟩ := readIter_cmd (hphase.isIdle hpos) hk
    have hreach : Reaches (step m57Server) ⟨.read, cl⟩ ⟨.read, cl₁⟩ := .single heq
    rw [hreach.terminates_iff hfix]
    exact ih (.inr ⟨_, _, hcoll⟩) hproto hcoll.pending hus₁
  | keytool hk hrest ih =>
    subst hc hus
    obtain ⟨cl₁, heq, hcoll, hus₁, hproto, -⟩ := readIter_keytool (hphase.isIdle hpos) hk
    have hreach : Reaches (step m57Server) ⟨.read, cl⟩ ⟨.read, cl₁⟩ := .single heq
    rw [hreach.terminates_iff hfix]
    exact ih (.inr ⟨_, _, hcoll⟩) hproto hcoll.pending hus₁
  | @body c got b n hb hn hfit hlive hrest ih =>
    subst hc hus
    obtain ⟨cl₁, hreach, hproto, hus₁, hidle⟩ :=
      reaches_command (hphase.collecting hpos) (List.take_append_drop n cl.us).symm
        (List.length_take_of_le hn) hb hfit
    rw [hlive] at hreach
    rw [hreach.terminates_iff hfix]
    exact ih (.inl (hidle hlive)) hproto (IsIdle.pending (hidle hlive)) hus₁

/-! ### Progress -/

/-- The size of what a callback has still to do at the head of the outer loop. -/
def workLeft (cl : NetTcpClient Ctx) : ℕ :=
  2 * cl.us.length + if (pending cl).isSome then 1 else 0

theorem workLeft_of_isIdle {cl : NetTcpClient Ctx} (h : cl.IsIdle) :
    workLeft cl = 2 * cl.us.length := by
  rw [workLeft, IsIdle.pending h]
  rfl

theorem workLeft_of_collecting {cl : NetTcpClient Ctx} {got : List UInt8} {n : ℕ}
    (h : Collecting cl got n) : workLeft cl = 2 * cl.us.length + 1 := by
  rw [workLeft, h.pending]
  rfl

/-- A callback that has ended after some iterations terminates. -/
theorem terminates_of_reaches_ret {m : Machine Ctx} {cl : NetTcpClient Ctx}
    (h : Reaches (step m57Server) m ⟨.ret, cl⟩) :
    Terminates (step m57Server) Machine.IsFinal m :=
  Terminates.of_reaches h ⟨0, .inl rfl⟩

/-- The callback ends, or it comes back to the head of the outer loop with less to do and a walk
that does not stall either. -/
def GoesOn (cl : NetTcpClient Ctx) : Prop :=
  Terminates (step m57Server) Machine.IsFinal ⟨.read, cl⟩ ∨
    ∃ cl₁ : NetTcpClient Ctx, Reaches (step m57Server) ⟨.read, cl⟩ ⟨.read, cl₁⟩ ∧
      Phased ⟨.read, cl₁⟩ ∧ ¬ Stalls cl₁.conn.proto (pending cl₁) cl₁.us ∧
      workLeft cl₁ < workLeft cl

theorem goesOn_of_isIdle {cl : NetTcpClient Ctx} (hidle : cl.IsIdle)
    (h : ¬ Stalls cl.conn.proto none cl.us) : GoesOn cl := by
  have hwork := workLeft_of_isIdle hidle
  have hspec := headerKind_spec cl.us
  cases hk : headerKind cl.us with
  | wait =>
    obtain ⟨cl₁, heq, -⟩ := readIter_wait hidle hk
    exact .inl (terminates_of_reaches_ret (.single heq))
  | err =>
    obtain ⟨cl₁, heq, -⟩ := readIter_err hidle hk
    exact .inl (terminates_of_reaches_ret (.single heq))
  | cmd n =>
    obtain ⟨cl₁, heq, hcoll, hus, hproto, -⟩ := readIter_cmd hidle hk
    simp only [hk] at hspec
    have hlen : cl₁.us.length = cl.us.length - 8 := by
      rw [hus, List.length_drop]
      rfl
    have h8 : 8 ≤ cl.us.length := hspec.1
    refine .inr ⟨cl₁, .single heq, .inr ⟨_, _, hcoll⟩, ?_, ?_⟩
    · rw [hcoll.pending, hproto, hus]
      exact fun hst => h (.cmd hk hst)
    · rw [workLeft_of_collecting hcoll, hwork]
      omega
  | keytool code n =>
    obtain ⟨cl₁, heq, hcoll, hus, hproto, -⟩ := readIter_keytool hidle hk
    simp only [hk] at hspec
    have hlen : cl₁.us.length = 2 + (cl.us.length - 8) := by
      rw [hus, List.length_append, List.length_drop]
      rfl
    refine .inr ⟨cl₁, .single heq, .inr ⟨_, _, hcoll⟩, ?_, ?_⟩
    · rw [hcoll.pending, hproto, hus]
      exact fun hst => h (.keytool hk hst)
    · rw [workLeft_of_collecting hcoll, hwork]
      omega
  | data len =>
    have hpos : len ≠ 0 := by
      rintro rfl
      exact h (.zero hk)
    obtain ⟨cl₁, heq, hidle₁, hus, hproto, -⟩ := readIter_data hidle hk
    simp only [hk] at hspec
    have hlen : cl₁.us.length = cl.us.length - len := by rw [hus, List.length_drop]
    refine .inr ⟨cl₁, .single heq, .inl hidle₁, ?_, ?_⟩
    · rw [IsIdle.pending hidle₁, hproto, hus]
      exact fun hst => h (.data hk hst)
    · rw [workLeft_of_isIdle hidle₁, hwork]
      omega

theorem goesOn_of_collecting {cl : NetTcpClient Ctx} {got : List UInt8} {n : ℕ}
    (hcoll : Collecting cl got n) (h : ¬ Stalls cl.conn.proto (some (got, n)) cl.us) :
    GoesOn cl := by
  by_cases hus : cl.us = []
  · exact .inl (terminates_of_reaches_ret (.single (readIter_of_nil hus)))
  have hfit : got.length + min n cl.us.length ≤ MAX_RECEIVE_DATA_LEN := by
    by_cases hn : n = 0
    · rw [hn, Nat.zero_min]
      exact hcoll.bound
    · by_contra hover
      exact h (.overrun hn hus (not_le.mp hover))
  by_cases hshort : cl.us.length < n
  · obtain ⟨cl₁, hreach, -⟩ := reaches_collecting_of_short hcoll hshort (by omega)
    exact .inl (terminates_of_reaches_ret hreach)
  have hn : n ≤ cl.us.length := not_lt.mp hshort
  obtain ⟨cl₁, hreach, hproto, hus₁, hidle₁⟩ :=
    reaches_command hcoll (List.take_append_drop n cl.us).symm (List.length_take_of_le hn) hus
      (by omega)
  cases hex : (command (got ++ cl.us.take n) cl.conn.proto).host.exited with
  | true =>
    rw [hex] at hreach
    exact .inl (Terminates.of_reaches hreach ⟨0, .inr rfl⟩)
  | false =>
    rw [hex] at hreach
    have hlen : cl₁.us.length = cl.us.length - n := by rw [hus₁, List.length_drop]
    refine .inr ⟨cl₁, hreach, .inl (hidle₁ hex), ?_, ?_⟩
    · rw [IsIdle.pending (hidle₁ hex), hproto, hus₁]
      exact fun hst => h (.body hus hn (by omega) hex hst)
    · rw [workLeft_of_isIdle (hidle₁ hex), workLeft_of_collecting hcoll]
      omega

/-- A callback whose walk does not stall terminates. -/
theorem terminates_of_not_stalls {cl : NetTcpClient Ctx} (hphase : Phased ⟨.read, cl⟩)
    (h : ¬ Stalls cl.conn.proto (pending cl) cl.us) :
    Terminates (step m57Server) Machine.IsFinal ⟨.read, cl⟩ := by
  induction hw : workLeft cl using Nat.strong_induction_on generalizing cl with
  | _ w ih =>
    subst hw
    have hgoes : GoesOn cl := by
      rcases hphase with hidle | ⟨got, n, hcoll⟩
      · rw [IsIdle.pending hidle] at h
        exact goesOn_of_isIdle hidle h
      · rw [Collecting.pending hcoll] at h
        exact goesOn_of_collecting hcoll h
    rcases hgoes with hterm | ⟨cl₁, hreach, hphase₁, hstalls, hless⟩
    · exact hterm
    · exact Terminates.of_reaches hreach (ih _ hless hphase₁ hstalls rfl)

/-- An iteration consumes a byte or leaves its loop. The outer loop is left for the inner one at
the start of a body and taken up again when the body is finished or the bytes are. -/
def Progress (m : Machine Ctx) : Prop :=
  match m.pc, (step m57Server m).pc with
  | .read, .read | .poll _, .poll _ => (step m57Server m).cl.us.length < m.cl.us.length
  | _, _ => True

theorem progress_read {cl : NetTcpClient Ctx} (hphase : Phased ⟨.read, cl⟩)
    (h : Terminates (step m57Server) Machine.IsFinal ⟨.read, cl⟩) : Progress ⟨.read, cl⟩ := by
  unfold Progress
  rw [step_read]
  rcases hphase with hidle | ⟨got, n, hcoll⟩
  · have hspec := headerKind_spec cl.us
    cases hk : headerKind cl.us with
    | wait =>
      obtain ⟨cl₁, heq, -⟩ := readIter_wait hidle hk
      simp only [heq]
    | err =>
      obtain ⟨cl₁, heq, -⟩ := readIter_err hidle hk
      simp only [heq]
    | cmd n =>
      obtain ⟨cl₁, heq, -, hus, -⟩ := readIter_cmd hidle hk
      simp only [hk, HEADER_LEN] at hspec
      simp only [heq, hus, List.length_drop, HEADER_LEN]
      omega
    | keytool code n =>
      obtain ⟨cl₁, heq, -, hus, -⟩ := readIter_keytool hidle hk
      simp only [hk] at hspec
      simp only [heq, hus, List.length_append, length_le16, List.length_drop]
      omega
    | data len =>
      have hpos : len ≠ 0 := by
        rintro rfl
        exact not_terminates_of_zero hidle hk h
      obtain ⟨cl₁, heq, -, hus, -⟩ := readIter_data hidle hk
      simp only [hk, HEADER_LEN] at hspec
      simp only [heq, hus, List.length_drop]
      omega
  · by_cases hus : cl.us = []
    · simp only [readIter_of_nil hus]
    · obtain ⟨cl₁, heq, -⟩ := hcoll.enter hus
      simp only [heq]

theorem progress_poll {cl : NetTcpClient Ctx} {n : ℕ} (hphase : Phased ⟨.poll n, cl⟩)
    (h : Terminates (step m57Server) Machine.IsFinal ⟨.poll n, cl⟩) : Progress ⟨.poll n, cl⟩ := by
  unfold Progress
  rw [step_poll]
  rcases hphase with ⟨got, hpoll⟩ | ⟨hn, hus, hover⟩
  · by_cases hn : n = 0
    · subst hn
      obtain ⟨cl₁, heq, -⟩ := hpoll.finish
      cases hex : (command got cl.conn.proto).host.exited with
      | true => simp only [heq, hex, if_true]
      | false => simp only [heq, hex, Bool.false_eq_true, if_false]
    · by_cases hus : cl.us = []
      · obtain ⟨cl₁, heq, -⟩ := hpoll.suspend hus hn
        simp only [heq]
      · by_cases hfit : got.length + min n cl.us.length ≤ MAX_RECEIVE_DATA_LEN
        · obtain ⟨cl₁, heq, -, hus₁, -⟩ := hpoll.take hus hn hfit
          have hpos : 0 < cl.us.length := List.length_pos_iff.mpr hus
          simp only [heq, hus₁, List.length_drop]
          omega
        · refine absurd h (not_terminates_of_overrun hn hus ?_)
          rw [hpoll.postLen]
          omega
  · exact absurd h (not_terminates_of_overrun hn hus (Nat.lt_add_right _ hover))

/-- Where a callback terminates, its next iteration makes progress. -/
theorem progress_of_terminates {m : Machine Ctx} (hphase : Phased m)
    (h : Terminates (step m57Server) Machine.IsFinal m) : Progress m := by
  obtain ⟨pc, cl⟩ := m
  cases pc with
  | ret => trivial
  | exit => trivial
  | read => exact progress_read hphase h
  | poll n => exact progress_poll hphase h

/-- **A callback terminates exactly if its walk does not stall.** In every state that a connection
can be in between two callbacks, and for every read, the callback ends after iterations that all
make progress if and only if the walk over the frames in the buffer meets no data frame of length
zero and no body that does not fit into the block. -/
theorem advances_iff_not_stalls {cap : ℕ} {c : Ctx} {cl : NetTcpClient Ctx}
    (h : Run cap (fun _ => True) c ⟨.ret, cl⟩) (chunk : List UInt8) :
    (Terminates (step m57Server) Machine.IsFinal (recv chunk cl) ∧
        ∀ k, Progress ((step m57Server)^[k] (recv chunk cl))) ↔
      ¬ Stalls cl.conn.proto (pending cl) (cl.us ++ chunk) := by
  have hphase : Phased (recv chunk cl) := h.phased.recv chunk
  have hfix (m : Machine Ctx) (hm : m.IsFinal) : step m57Server m = m := step_of_isFinal _ hm
  constructor
  · rintro ⟨hterm, -⟩ hstalls
    exact not_terminates_of_stalls hstalls hphase rfl rfl rfl hterm
  · intro hstalls
    have hterm : Terminates (step m57Server) Machine.IsFinal (recv chunk cl) :=
      terminates_of_not_stalls hphase hstalls
    refine ⟨hterm, fun k => progress_of_terminates ?_ ?_⟩
    · exact iterate_invariant (fun m hm => phased_step hm) hphase k
    · have hreach : Reaches (step m57Server) (recv chunk cl) _ := ⟨k, rfl⟩
      exact (hreach.terminates_iff hfix).mp hterm

/-- A data frame of length zero, as the first read of a connection. -/
theorem advances_iff_not_stalls_zero :
    ¬ (Terminates (step m57Server) Machine.IsFinal (recv [0x51, 0x57, 0, 0, 0, 0, 0, 0]
        (.fresh (.start .reliable fun _ => false))) ∧
      ∀ k, Progress ((step m57Server)^[k] (recv [0x51, 0x57, 0, 0, 0, 0, 0, 0]
        (.fresh (.start .reliable fun _ => false))))) := by
  have hstart : Run 8 (fun _ => True) (.start .reliable fun _ => false)
      ⟨.ret, .fresh (.start .reliable fun _ => false)⟩ := .start
  intro hadv
  exact (advances_iff_not_stalls hstart _).mp hadv (.zero (by decide))

/-- The callback for a data frame of length zero does not terminate. -/
theorem not_terminates_zero_length_data :
    ¬ Terminates (step m57Server) Machine.IsFinal (recv [0x51, 0x57, 0, 0, 0, 0, 0, 0]
      (.fresh (.start .reliable fun _ => false))) :=
  not_terminates_of_zero ⟨rfl, ⟨rfl, rfl⟩, rfl, rfl⟩ (by decide)

end M57Card.M57
