import M57Card.Answer.Replies
import M57Card.Load.Session

/-!
# Framing of responses

A response is a data frame without command header when the flag `is_keytool_cmd` of the section is
set. The parser sets the flag for every frame of the key tool, and only a response clears it: a
write of the key tool, which is not answered, leaves it set for the response to some later request.
In a run in which no such request is answered, the frames follow the requests.

The causes of responses are the frames of the client and the results of asynchronous loads, which
reach `_m57_load_bit_over` from the loading thread.

## Main definitions

* `Cause`, `Cause.effect`, `CauseRun`.
* `FramedAs` : the framing that a cause calls for.
* `FramingOk` : the condition under which a cause gets it.

## Main results

* `run_framed` : framing of all responses in a run.
-/

namespace M57Card.M57

open Net Bytes

/-- What can cause a response: a frame of the client, or the result of an asynchronous load. -/
inductive Cause where
  | frame (i : Input)
  | loadResult (result : Bool)

namespace Cause

/-- The effect of a cause on the protocol's side of the connection. -/
def effect (a : Cause) (c : Ctx) : Ctx :=
  match a with
  | .frame i => i.effect c
  | .loadResult result => (m57LoadBitOver result { proto := c }).proto

/-- Reads of the key tool. -/
def IsKeyRead (a : Cause) : Prop := ∃ rest, a = .frame (.keyRead rest)

/-- The response code of a cause. -/
def code : Cause → ℕ
  | .frame (.cmd body) => replyCode (cardCmd (u16 body 0))
  | .loadResult _ => 0x06
  | _ => 0

end Cause

/-- Causes one after the other, each while the process lives and where `ok` holds. -/
abbrev CauseRun (ok : Ctx → Cause → Prop) (c₀ : Ctx) : List Cause → Ctx → Prop :=
  LabelRun Cause.effect (fun c => c.host.exited = false) ok c₀

/-- The framing of a response to `a`: a data frame exactly for reads of the key tool, and otherwise
a command frame with the response code of `a`. -/
def FramedAs (a : Cause) (f : RespFrame) : Prop :=
  (IsKeytoolReply f ↔ a.IsKeyRead) ∧ (¬ a.IsKeyRead → IsReply a.code f)

/-- In every run of causes, every response is framed as its cause calls for. -/
def AllFramed (ok : Ctx → Cause → Prop) (c₀ : Ctx) : Prop :=
  ∀ as c a client f, CauseRun ok c₀ as c → c.host.exited = false → ok c a →
    Event.send client f ∈ newEvents c.host (a.effect c).host → FramedAs a f

/-- A command or the result of a load is not answered while the key tool flag is set, and the key
tool's read does not come as a command frame. -/
def FramingOk (c : Ctx) (a : Cause) : Prop :=
  match a with
  | .frame (.cmd body) => cardCmd (u16 body 0) ≠ .keyReadE2prom ∧
      (c.sect.isKeytoolCmd = true → answered c body = false)
  | .frame _ => True
  | .loadResult _ => c.sect.isKeytoolCmd = true → c.sect.isExitting = true

variable {c : Ctx}

theorem grows_cause (a : Cause) (c : Ctx) : Grows (fun _ => True) c.host (a.effect c).host := by
  cases a with
  | frame i => exact grows_effect i c
  | loadResult result =>
    exact (grows_m57LoadBitOver result { proto := c }).mono fun _ _ => trivial

/-- The frames that are sent are those that have come to the trace. -/
theorem Replies.framedAs {a : Cause} {code n client : ℕ} {f : RespFrame}
    (h : Replies code n c (a.effect c)) (hkey : ¬ a.IsKeyRead) (hcode : a.code = code)
    (hflag : c.sect.isKeytoolCmd = false ∨ n = 0)
    (hsend : Event.send client f ∈ newEvents c.host (a.effect c).host) : FramedAs a f := by
  obtain ⟨frames, hlen, hsends, hreply⟩ := h.sends
  have hmem := (grows_cause a c).mem_of_newEvents (e := .send client f) hsends hsend
  obtain ⟨g, hg, heq⟩ := List.mem_map.mp hmem
  obtain ⟨-, rfl⟩ := Event.send.inj heq
  rcases hflag with hflag | rfl
  · have hf := hreply hflag g hg
    exact ⟨iff_of_false hf.not_isKeytoolReply hkey, fun _ => hcode ▸ hf⟩
  · rw [List.length_eq_zero_iff.mp hlen] at hg
    exact absurd hg List.not_mem_nil

/-- The answer to a read of the key tool is a data frame. -/
theorem framedAs_keyRead {rest : List UInt8} {client : ℕ} {f : RespFrame}
    (hlive : c.host.exited = false)
    (hsend : Event.send client f ∈ newEvents c.host ((Input.keyRead rest).effect c).host) :
    FramedAs (.frame (.keyRead rest)) f := by
  obtain ⟨g, hg, hsends⟩ := sends_keyRead rest hlive
  have hmem := (grows_effect (.keyRead rest) c).mem_of_newEvents (e := .send client f) hsends hsend
  obtain ⟨-, rfl⟩ := Event.send.inj (List.mem_singleton.mp hmem)
  exact ⟨iff_of_true hg ⟨rest, rfl⟩, fun hnot => absurd ⟨rest, rfl⟩ hnot⟩

/-- Commands that are not answered send no frame, whatever the flag is. -/
theorem framedAs_cmd {body : List UInt8} {client : ℕ} {f : RespFrame}
    (hlive : c.host.exited = false) (hexit : c.sect.isExitting = false)
    (hok : FramingOk c (.frame (.cmd body)))
    (hsend : Event.send client f ∈ newEvents c.host (command body c).host) :
    FramedAs (.frame (.cmd body)) f := by
  obtain ⟨hkey, hflag⟩ := hok
  have hnot : ¬ Cause.IsKeyRead (.frame (.cmd body)) := by
    rintro ⟨rest, heq⟩
    exact Input.noConfusion (Cause.frame.inj heq)
  by_cases htrans : cardCmd (u16 body 0) = .fileTransfer
  · have hreplies := replies_fileTransfer htrans hexit hlive
    refine Replies.framedAs (a := .frame (.cmd body)) hreplies hnot ?_ ?_ hsend
    · simp only [Cause.code, htrans, replyCode]
    · rcases Bool.eq_false_or_eq_true c.sect.isKeytoolCmd with hset | hclear
      · have hcont : Continues c body := by
          have hans := hflag hset
          simpa [answered, htrans] using hans
        have hrun := (received_flags body hcont.1).1.mpr hcont
        exact .inr (if_neg (by rw [hrun]; decide))
      · exact .inl hclear
  · have hreplies := replies_command body c htrans hkey hlive
    refine Replies.framedAs (a := .frame (.cmd body)) hreplies hnot rfl ?_ hsend
    rcases Bool.eq_false_or_eq_true c.sect.isKeytoolCmd with hset | hclear
    · exact .inr (if_neg (by rw [hflag hset]; decide))
    · exact .inl hclear

theorem not_send_of_eventsOf_eq {a : Cause} {client : ℕ} {f : RespFrame}
    (hsends : (a.effect c).host.eventsOf .send = c.host.eventsOf .send) :
    Event.send client f ∉ newEvents c.host (a.effect c).host := by
  intro hsend
  have hmem := (grows_cause a c).mem_of_newEvents (e := .send client f) (l := [])
    (by rw [List.append_nil]; exact hsends) hsend
  exact List.not_mem_nil hmem

/-- Nothing that the client or the loading thread does closes the client. -/
theorem isExitting_of_run {ok : Ctx → Cause → Prop} {c₀ : Ctx} {as : List Cause}
    (hrun : CauseRun ok c₀ as c) : c.sect.isExitting = c₀.sect.isExitting := by
  refine LabelRun.invariant (fun _ c => c.sect.isExitting = c₀.sect.isExitting) rfl ?_ hrun
  intro _ c a _ _ _ ih
  cases a with
  | frame i => exact (Input.effect_frame i c).2.2.trans ih
  | loadResult result => exact (keeps_m57LoadBitOver result { proto := c }).isExitting.trans ih

/-- **Responses are framed as their causes call for**, in every run in which no command and no load
result is answered while the key tool flag is set. -/
theorem run_framed {c₀ : Ctx} (hfresh : c₀.sect = {}) : AllFramed FramingOk c₀ := by
  intro as c a client f hrun hlive hok hsend
  have hexit : c.sect.isExitting = false := by rw [isExitting_of_run hrun, hfresh]
  cases a with
  | frame i =>
    cases i with
    | cmd body => exact framedAs_cmd hlive hexit hok hsend
    | keyRead rest => exact framedAs_keyRead hlive hsend
    | keyWrite rest =>
      exact absurd hsend (not_send_of_eventsOf_eq (a := .frame (.keyWrite rest))
        (sends_keyWrite rest hlive))
    | data frame =>
      exact absurd hsend (not_send_of_eventsOf_eq (a := .frame (.data frame)) (sends_data frame c))
  | loadResult result =>
    have hflag : c.sect.isKeytoolCmd = false := by
      by_contra hset
      exact Bool.noConfusion (hexit.symm.trans (hok (Bool.eq_true_of_not_eq_false hset)))
    refine Replies.framedAs (a := .loadResult result)
      (replies_m57LoadBitOver result { proto := c } hexit) ?_ rfl (.inl hflag) hsend
    rintro ⟨rest, heq⟩
    exact Cause.noConfusion heq

/-- The answer to LIST_INFO, the first command of a client. -/
theorem run_framed_listInfo :
    FramedAs (.frame (.cmd [0x16, 0, 8, 0, 0, 0, 0, 0]))
      (respFrame false 3 0 0x17 (List.replicate 32 0)) := by
  refine @run_framed (.start .reliable fun i => i == 5) rfl [] _ _ 0 _ .nil rfl ?_ ?_
  · exact ⟨by decide, nofun⟩
  · decide

/-- Without the condition, a write of the key tool makes the answer to LIST_INFO a data frame. -/
theorem not_allFramed_keyWrite_listInfo :
    ¬ AllFramed (fun _ _ => True) (.start .reliable fun i => i == 5) := by
  intro h
  have hframed := h
    [.frame (.keyWrite ([0, 2, 0, 0, 1, 0, 34, 1, 2, 2, 1, 0, 2, 0] ++ List.replicate 278 0))] _
    (.frame (.cmd [0x16, 0, 8, 0, 0, 0, 0, 0])) 0
    (respFrame true 3 0 0x17 (List.replicate 32 0)) (.snoc .nil rfl trivial) (by decide) trivial
    (by decide)
  obtain ⟨rest, heq⟩ := hframed.1.mp (isKeytoolReply_respFrame _ _ _ _)
  exact Input.noConfusion (Cause.frame.inj heq)

end M57Card.M57
