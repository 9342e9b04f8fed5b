import M57Card.Uplink.Vectors

/-!
# The sender of a vector

A client gets the vectors of the keys it has subscribed to, one frame after the other.
`_data_send_package_` (`net_thread.c`, lines 393–433) walks through a vector on its own: it takes
the length of the frame at hand from its header, passes the frame to `tcp_send_data_to_client`
(`net_tcp.c`, lines 672–699), and looks for the next header at most 32 bytes ahead
(`__find_next_header_ex__`, lines 327–344).

The calls of the system function `send` give a list of results, for each call of
`tcp_send_data_to_client`; when the list ends, the call has not returned. The addresses are counted
from any origin, and a vector always has one, so that there is no test for a null pointer.

The walk is compared with the frames that the router has found. As long as the frames are long and
near enough (`Reads`), it goes through them; behind the last one it stops, or meets the frame that
has ended the run (`sent_sendLoop`, `sendLoop_of_reads`).

## Main definitions

* `tcpSendDataToClient`, `findNextHeaderEx`, `dataSendPackage`.
* `Reads` : the frames that the sender can follow.

## Main results

* `sent_sendLoop` : what is sent at most.
* `sendLoop_of_reads` : what is sent, and the result, when every call succeeds.
-/

namespace M57Card.Uplink

open M57

/-! ### The model -/

/-- The result of a call of `send`. -/
inductive SendResult where
  | sent (n : ℕ)
  /-- `EINTR`, `EAGAIN` or `EWOULDBLOCK` -/
  | again
  /-- `ENOTCONN` -/
  | notConnected
  | error
  deriving DecidableEq

/-- The loop of `tcp_send_data_to_client`, with `ret` bytes sent so far; `send` takes at most the
bytes it is given. -/
def tcpSendLoop : List SendResult → ℕ → ℕ → Option ℤ
  | _, 0, ret => some ret
  | [], _ + 1, _ => none
  | .sent n :: rs, buflen + 1, ret =>
      tcpSendLoop rs (buflen + 1 - min n (buflen + 1)) (ret + min n (buflen + 1))
  | .again :: rs, buflen + 1, ret => tcpSendLoop rs (buflen + 1) ret
  | .notConnected :: _, _ + 1, ret => some ret
  | .error :: _, _ + 1, _ => some (-1)

/-- `tcp_send_data_to_client`: the result, `none` when the call does not return. -/
def tcpSendDataToClient (rs : List SendResult) (buflen : ℕ) : Option ℤ := tcpSendLoop rs buflen 0

/-- `HPA_HEADER_LEN`. -/
def HPA_HEADER_LEN : ℕ := 24

/-- `HPA_MAXDATA_LEN`. -/
def HPA_MAXDATA_LEN : ℕ := 2048

/-- `__find_next_header_ex__`: the distance to the next sync word behind `p`, in steps of eight
bytes; the first step from `len` on is the last one. -/
def findNextHeaderEx (m : Mem) (p len : ℕ) : Option ℕ :=
  ((List.range (max 1 ((len + 7) / 8))).map fun k => 8 * (k + 1)).find?
    fun off => IsSync m (p + off)

/-- The variables of the sender, and the ranges that it has passed to `tcp_send_data_to_client`. -/
structure Sending where
  pdata : ℕ
  sendokLen : ℤ := 0
  padLen : ℤ := 0
  sent : List (ℕ × ℕ) := []

/-- The ranges that were passed to `tcp_send_data_to_client`, and the result; `none` when the sender
has not returned. -/
structure Sent where
  sent : List (ℕ × ℕ)
  ret : Option ℤ
  deriving DecidableEq

section Sender

variable (m : Mem) (socket : ℕ → ℕ → List SendResult) (data len : ℕ)

/-- The part of an iteration behind the search for a header: the frame at `pdata`. -/
def sendFrame (s : Sending) : Sending ⊕ Sent :=
  let payloadLen := frameLen m s.pdata
  if payloadLen < HPA_HEADER_LEN ∨ HPA_MAXDATA_LEN < payloadLen then
    .inr ⟨s.sent, some (s.sendokLen + s.padLen)⟩
  else
    let sent := s.sent ++ [(s.pdata, payloadLen)]
    match tcpSendDataToClient (socket s.sent.length payloadLen) payloadLen with
    | none => .inr ⟨sent, none⟩
    | some rv =>
        let sendokLen := if 0 < rv then s.sendokLen + rv else s.sendokLen
        let pdata := s.pdata + payloadLen
        let leftLen : ℤ := len - (pdata - data)
        if leftLen < HPA_HEADER_LEN then
          .inr ⟨sent, some (sendokLen + (s.padLen + leftLen))⟩
        else if sendokLen + s.padLen < len then
          .inl ⟨pdata, sendokLen, s.padLen, sent⟩
        else
          .inr ⟨sent, some (sendokLen + s.padLen)⟩

/-- One iteration of the sender. -/
def sendIter (s : Sending) : Sending ⊕ Sent :=
  if IsSync m s.pdata then
    sendFrame m socket data len s
  else
    match findNextHeaderEx m s.pdata 32 with
    | some rv =>
      sendFrame m socket data len { s with pdata := s.pdata + rv, padLen := s.padLen + rv }
    | none => .inr ⟨s.sent, some (s.sendokLen + s.padLen)⟩

/-- The loop of the sender; an iteration that goes on has moved by a frame and is still inside the
vector, so that `len` iterations are enough. -/
def sendLoop : ℕ → Sending → Sent
  | 0, s => ⟨s.sent, none⟩
  | n + 1, s =>
      match sendIter m socket data len s with
      | .inr r => r
      | .inl s' => sendLoop n s'

/-- `_data_send_package_`, the calls of `tcp_send_data_to_client` being numbered. -/
def dataSendPackage : Sent :=
  if len < HPA_HEADER_LEN then ⟨[], some 0⟩ else sendLoop m socket data len len { pdata := data }

end Sender

/-- Every call of `tcp_send_data_to_client` sends all bytes. -/
def FullSends (socket : ℕ → ℕ → List SendResult) : Prop :=
  ∀ i (n : ℕ), tcpSendDataToClient (socket i n) n = some (n : ℤ)

/-! ### The sender and the headers -/

/-- The range of a frame. -/
def frameRange (m : Mem) (p : ℕ) : ℕ × ℕ := (p, frameLen m p)

/-- The sender skips the bytes up to `q`. -/
def Sending.skipTo (s : Sending) (q : ℕ) : Sending :=
  { s with pdata := q, padLen := s.padLen + (q - s.pdata) }

/-- The sender can follow the frames `qs` from `e` on: each starts at most 32 bytes behind the end
of its predecessor, and has a whole header. -/
def Reads (m : Mem) : ℕ → List ℕ → Prop
  | _, [] => True
  | e, q :: qs => q ≤ e + 32 ∧ HPA_HEADER_LEN ≤ frameLen m q ∧ Reads m (q + frameLen m q) qs

section Headers

variable {m : Mem} {p q : ℕ}

theorem findNextHeaderEx_eq_some :
    findNextHeaderEx m p 32 = some q ↔
      ∃ k < 4, q = 8 * (k + 1) ∧ IsSync m (p + 8 * (k + 1)) ∧
        ∀ i < k, ¬ IsSync m (p + 8 * (i + 1)) := by
  have hsteps : max 1 ((32 + 7) / 8) = 4 := rfl
  simp only [findNextHeaderEx, hsteps, List.find?_map, Option.map_eq_some_iff,
    List.find?_range_eq_some, Function.comp_apply, decide_eq_true_eq, List.mem_range,
    Bool.not_eq_true', decide_eq_false_iff_not]
  constructor
  · rintro ⟨k, ⟨hsync, hk, hbefore⟩, rfl⟩
    exact ⟨k, hk, rfl, hsync, hbefore⟩
  · rintro ⟨k, hk, rfl, hsync, hbefore⟩
    exact ⟨k, ⟨hsync, hk, hbefore⟩, rfl⟩

theorem findNextHeaderEx_eq_none :
    findNextHeaderEx m p 32 = none ↔ ∀ k < 4, ¬ IsSync m (p + 8 * (k + 1)) := by
  have hsteps : max 1 ((32 + 7) / 8) = 4 := rfl
  simp only [findNextHeaderEx, hsteps, List.find?_eq_none, List.mem_map, List.mem_range,
    decide_eq_true_eq]
  constructor
  · intro h k hk
    exact h _ ⟨k, hk, rfl⟩
  · rintro h off ⟨k, hk, rfl⟩
    exact h k hk

variable (socket : ℕ → ℕ → List SendResult) (data len : ℕ) {s : Sending}

/-- An iteration goes to the next header, at most 32 bytes ahead. -/
theorem sendIter_of_some (h : nextHeader m (s.pdata + 33) s.pdata = some q) :
    sendIter m socket data len s = sendFrame m socket data len (s.skipTo q) := by
  obtain ⟨j, rfl, hlt, hsync, hbefore⟩ := nextHeader_eq_some.mp h
  cases j with
  | zero =>
    rw [Nat.mul_zero, Nat.add_zero] at hsync ⊢
    rw [sendIter, if_pos hsync, Sending.skipTo, sub_self, add_zero]
  | succ k =>
    have hnot : ¬ IsSync m s.pdata := hbefore 0 (Nat.succ_pos k)
    have hfind : findNextHeaderEx m s.pdata 32 = some (8 * (k + 1)) :=
      findNextHeaderEx_eq_some.mpr ⟨k, by omega, rfl, hsync, fun i hi => hbefore (i + 1) (by omega)⟩
    have hpad : ((s.pdata + 8 * (k + 1) : ℕ) : ℤ) - s.pdata = (8 * (k + 1) : ℕ) := by omega
    rw [sendIter, if_neg hnot, hfind, Sending.skipTo, hpad]

/-- Without a header the sender stops. -/
theorem sendIter_of_none (h : nextHeader m (s.pdata + 33) s.pdata = none) :
    sendIter m socket data len s = .inr ⟨s.sent, some (s.sendokLen + s.padLen)⟩ := by
  rw [nextHeader_eq_none] at h
  have hnot : ¬ IsSync m s.pdata := h 0 (by omega)
  have hfind : findNextHeaderEx m s.pdata 32 = none :=
    findNextHeaderEx_eq_none.mpr fun k hk => h (k + 1) (by omega)
  rw [sendIter, if_neg hnot, hfind]

end Headers

/-! ### The loop of the sender -/

section Frame

variable {m : Mem} {socket : ℕ → ℕ → List SendResult} {data len : ℕ}

/-- What the sender does with the frame at `pdata`: it stops in front of a frame that it does not
take; otherwise it passes the frame on and stops, or goes on behind it if there is room for
another header. -/
theorem sendFrame_cases (m : Mem) (socket : ℕ → ℕ → List SendResult) (data len : ℕ) (s : Sending) :
    (frameLen m s.pdata < HPA_HEADER_LEN ∨ HPA_MAXDATA_LEN < frameLen m s.pdata) ∧
        sendFrame m socket data len s = .inr ⟨s.sent, some (s.sendokLen + s.padLen)⟩ ∨
      (HPA_HEADER_LEN ≤ frameLen m s.pdata ∧ frameLen m s.pdata ≤ HPA_MAXDATA_LEN) ∧
        ((∃ ret, sendFrame m socket data len s = .inr ⟨s.sent ++ [frameRange m s.pdata], ret⟩) ∨
          ∃ s', s'.pdata = s.pdata + frameLen m s.pdata ∧
            s'.sent = s.sent ++ [frameRange m s.pdata] ∧
            s.pdata + frameLen m s.pdata + HPA_HEADER_LEN ≤ data + len ∧
            sendFrame m socket data len s = .inl s') := by
  by_cases hlen : frameLen m s.pdata < HPA_HEADER_LEN ∨ HPA_MAXDATA_LEN < frameLen m s.pdata
  · exact .inl ⟨hlen, if_pos hlen⟩
  · refine .inr ⟨by omega, ?_⟩
    cases hrv : tcpSendDataToClient (socket s.sent.length (frameLen m s.pdata))
        (frameLen m s.pdata) with
    | none => exact .inl ⟨none, by simp only [sendFrame, hlen, hrv, if_false, frameRange]⟩
    | some rv =>
      by_cases hleft : (len : ℤ) - ((s.pdata + frameLen m s.pdata : ℕ) - data) < HPA_HEADER_LEN
      · refine .inl ⟨some ((if 0 < rv then s.sendokLen + rv else s.sendokLen) +
          (s.padLen + (len - ((s.pdata + frameLen m s.pdata : ℕ) - data)))), ?_⟩
        simp only [sendFrame, hlen, hrv, hleft, if_false, if_true, frameRange]
      · by_cases hgo : (if 0 < rv then s.sendokLen + rv else s.sendokLen) + s.padLen < len
        · refine .inr ⟨⟨s.pdata + frameLen m s.pdata,
            if 0 < rv then s.sendokLen + rv else s.sendokLen, s.padLen,
            s.sent ++ [frameRange m s.pdata]⟩, rfl, rfl, by omega, ?_⟩
          simp only [sendFrame, hlen, hrv, hleft, hgo, if_false, if_true, frameRange]
        · refine .inl ⟨some ((if 0 < rv then s.sendokLen + rv else s.sendokLen) + s.padLen), ?_⟩
          simp only [sendFrame, hlen, hrv, hleft, hgo, if_false, frameRange]

/-- The same when the call sends all bytes; `sendok_len + pad_len` is then the distance so far. -/
theorem sendFrame_of_fullSends (hsocket : FullSends socket) (data len : ℕ) {s : Sending}
    (hmin : HPA_HEADER_LEN ≤ frameLen m s.pdata) (hmax : frameLen m s.pdata ≤ HPA_MAXDATA_LEN)
    (hdist : s.sendokLen + s.padLen = s.pdata - data) :
    (data + len < s.pdata + frameLen m s.pdata + HPA_HEADER_LEN →
        sendFrame m socket data len s = .inr ⟨s.sent ++ [frameRange m s.pdata], some len⟩) ∧
      (s.pdata + frameLen m s.pdata + HPA_HEADER_LEN ≤ data + len →
        sendFrame m socket data len s = .inl ⟨s.pdata + frameLen m s.pdata,
          s.sendokLen + frameLen m s.pdata, s.padLen, s.sent ++ [frameRange m s.pdata]⟩) := by
  have hlen : ¬ (frameLen m s.pdata < HPA_HEADER_LEN ∨ HPA_MAXDATA_LEN < frameLen m s.pdata) := by
    omega
  have hheader : HPA_HEADER_LEN = 24 := rfl
  have hpos : (0 : ℤ) < frameLen m s.pdata := by omega
  have hrv := hsocket s.sent.length (frameLen m s.pdata)
  constructor
  · intro hend
    have hleft : (len : ℤ) - ((s.pdata + frameLen m s.pdata : ℕ) - data) < HPA_HEADER_LEN := by
      omega
    have hret : s.sendokLen + frameLen m s.pdata +
        (s.padLen + ((len : ℤ) - ((s.pdata + frameLen m s.pdata : ℕ) - data))) = len := by
      omega
    simp only [sendFrame, hlen, hrv, hleft, hpos, hret, if_false, if_true, frameRange]
  · intro hmore
    have hleft : ¬ (len : ℤ) - ((s.pdata + frameLen m s.pdata : ℕ) - data) < HPA_HEADER_LEN := by
      omega
    have hgo : s.sendokLen + frameLen m s.pdata + s.padLen < len := by omega
    simp only [sendFrame, hlen, hrv, hleft, hpos, hgo, if_false, if_true, frameRange]

end Frame

section Loop

variable {m : Mem} {cards : CardsStatus} {socket : ℕ → ℕ → List SendResult} {data len lim stop : ℕ}
  {sub : NetSub}

theorem sendLoop_of_inr {n : ℕ} {s : Sending} {r : Sent}
    (h : sendIter m socket data len s = .inr r) : sendLoop m socket data len (n + 1) s = r := by
  rw [sendLoop, h]

theorem sendLoop_of_inl {n : ℕ} {s s' : Sending} (h : sendIter m socket data len s = .inl s') :
    sendLoop m socket data len (n + 1) s = sendLoop m socket data len n s' := by
  rw [sendLoop, h]

/-- The sender goes on to the frame that ends the run, which is not in the vector. -/
structure Overruns (m : Mem) (stop lim : ℕ) : Prop where
  header : stop + HPA_HEADER_LEN ≤ lim
  near : lim ≤ stop + 32
  min : HPA_HEADER_LEN ≤ frameLen m lim

/-- The last steps of the sender, behind the last frame of a run: it stops, or sends the frame that
ends the run. -/
theorem sent_sendLoop_last {n : ℕ} {s : Sending} (hs : s.pdata = stop)
    (hroom : stop + HPA_HEADER_LEN ≤ data + len)
    (hnext : nextHeader m lim stop = some (data + len)) :
    (sendLoop m socket data len n s).sent = s.sent ∨
      Overruns m stop (data + len) ∧
        (sendLoop m socket data len n s).sent = s.sent ++ [frameRange m (data + len)] := by
  subst hs
  cases n with
  | zero => exact .inl rfl
  | succ n =>
    cases hq : nextHeader m (s.pdata + 33) s.pdata with
    | none =>
      rw [sendLoop_of_inr (sendIter_of_none _ _ _ hq)]
      exact .inl rfl
    | some q =>
      obtain rfl := nextHeader_unique hq hnext
      have hiter := sendIter_of_some socket data len hq
      have hpos : 0 < HPA_HEADER_LEN := by decide
      rcases sendFrame_cases m socket data len (s.skipTo (data + len)) with ⟨-, hframe⟩ |
        ⟨hlen, ⟨ret, hframe⟩ | ⟨s', -, -, hroom', -⟩⟩
      · rw [sendLoop_of_inr (hiter.trans hframe)]
        exact .inl rfl
      · rw [sendLoop_of_inr (hiter.trans hframe)]
        exact .inr ⟨⟨hroom, Nat.le_of_lt_succ (nextHeader_le hq).2, hlen.1⟩, rfl⟩
      · dsimp only [Sending.skipTo] at hroom'
        omega

/-- **What is sent at most**: the frames of the run as far as the sender can follow them, or all of
them and the frame that ends the run. -/
theorem sent_sendLoop (socket : ℕ → ℕ → List SendResult) (data len : ℕ) {e : ℕ} {qs : List ℕ}
    (h : Linked m cards lim sub e qs stop) {n : ℕ} {s : Sending} (hs : s.pdata = e)
    (hnext : stop + HPA_HEADER_LEN ≤ data + len → nextHeader m lim stop = some (data + len))
    (hnil : qs = [] → stop + HPA_HEADER_LEN ≤ data + len) :
    (∃ k ≤ qs.length, (sendLoop m socket data len n s).sent =
        s.sent ++ (qs.take k).map (frameRange m) ∧ (k = qs.length → Reads m e qs)) ∨
      Reads m e qs ∧ Overruns m stop (data + len) ∧ (sendLoop m socket data len n s).sent =
        s.sent ++ qs.map (frameRange m) ++ [frameRange m (data + len)] := by
  induction h generalizing n s with
  | nil e =>
    rcases sent_sendLoop_last hs (hnil rfl) (hnext (hnil rfl)) with hsent | ⟨hover, hsent⟩
    · exact .inl ⟨0, Nat.le_refl 0, by rw [hsent]; exact (List.append_nil _).symm, fun _ => trivial⟩
    · refine .inr ⟨trivial, hover, ?_⟩
      rw [hsent, List.map_nil, List.append_nil]
  | @cons e q stop qs hlink hrest ih =>
    obtain ⟨-, hq, hmax, -⟩ := nextFrame_eq_inr hlink
    have hstays (hsent : (sendLoop m socket data len n s).sent = s.sent) :
        ∃ k ≤ (q :: qs).length, (sendLoop m socket data len n s).sent =
          s.sent ++ ((q :: qs).take k).map (frameRange m) ∧
            (k = (q :: qs).length → Reads m e (q :: qs)) :=
      ⟨0, Nat.zero_le _, by rw [hsent]; exact (List.append_nil _).symm, fun hk => by cases hk⟩
    subst hs
    cases n with
    | zero => exact .inl (hstays rfl)
    | succ n =>
      cases hfound : nextHeader m (s.pdata + 33) s.pdata with
      | none => exact .inl (hstays (by rw [sendLoop_of_inr (sendIter_of_none _ _ _ hfound)]))
      | some q' =>
        obtain rfl := nextHeader_unique hfound hq
        have hnear : q' ≤ s.pdata + 32 := Nat.le_of_lt_succ (nextHeader_le hfound).2
        have hiter := sendIter_of_some socket data len hfound
        rcases sendFrame_cases m socket data len (s.skipTo q') with ⟨-, hframe⟩ |
          ⟨hlen, ⟨ret, hframe⟩ | ⟨s', hpdata, hmore, hroom, hframe⟩⟩
        · exact .inl (hstays (by rw [sendLoop_of_inr (hiter.trans hframe)]; rfl))
        · refine .inl ⟨1, Nat.succ_le_succ (Nat.zero_le _), ?_, fun hk => ?_⟩
          · rw [sendLoop_of_inr (hiter.trans hframe)]
            rfl
          · obtain rfl := List.eq_nil_of_length_eq_zero (Nat.succ.inj hk).symm
            exact ⟨hnear, hlen.1, trivial⟩
        · have hlast : qs = [] → stop + HPA_HEADER_LEN ≤ data + len := by
            rintro rfl
            cases hrest
            exact hroom
          rw [sendLoop_of_inl (hiter.trans hframe)]
          rcases ih hpdata hnext hlast with ⟨k, hk, hsent, hreads⟩ | ⟨hreads, hover, hsent⟩
          · refine .inl ⟨k + 1, Nat.succ_le_succ hk, ?_, fun hk' => ?_⟩
            · rw [hsent, hmore, List.append_assoc]
              rfl
            · exact ⟨hnear, hlen.1, hreads (Nat.succ.inj hk')⟩
          · refine .inr ⟨⟨hnear, hlen.1, hreads⟩, hover, ?_⟩
            rw [hsent, hmore, List.append_assoc (s.skipTo q').sent]
            rfl

/-! When every call sends all bytes, `sendok_len + pad_len` is the distance from the start of the
vector, and the sender goes through all frames that it can follow. -/

/-- The sender goes through frames that have room for a header behind them. -/
theorem sendLoop_of_reads (hsocket : FullSends socket) {e : ℕ} {qs : List ℕ}
    (h : Linked m cards lim sub e qs stop) (hreads : Reads m e qs)
    (hroom : stop + HPA_HEADER_LEN ≤ data + len) (n : ℕ) {s : Sending} (hs : s.pdata = e)
    (hdist : s.sendokLen + s.padLen = s.pdata - data) :
    ∃ s' : Sending, s'.pdata = stop ∧ s'.sent = s.sent ++ qs.map (frameRange m) ∧
      s'.sendokLen + s'.padLen = s'.pdata - data ∧
      sendLoop m socket data len (n + qs.length) s = sendLoop m socket data len n s' := by
  induction h generalizing s with
  | nil e => exact ⟨s, hs, (List.append_nil _).symm, hdist, rfl⟩
  | @cons e q stop qs hlink hrest ih =>
    obtain ⟨-, hq, hmax, -⟩ := nextFrame_eq_inr hlink
    obtain ⟨hnear, hmin, hreads⟩ := hreads
    subst hs
    have hiter := sendIter_of_some socket data len
      (nextHeader_of_lt hq (Nat.lt_succ_of_le hnear))
    have hdist' : (s.skipTo q).sendokLen + (s.skipTo q).padLen = (s.skipTo q).pdata - data := by
      dsimp only [Sending.skipTo]
      omega
    have hframe := (sendFrame_of_fullSends hsocket data len (s := s.skipTo q) hmin hmax hdist').2
      ((Nat.add_le_add_right hrest.le _).trans hroom)
    obtain ⟨s', hpdata, hsent, hdist'', hloop⟩ := ih hreads hroom (s :=
      ⟨q + frameLen m q, s.sendokLen + frameLen m q, (s.skipTo q).padLen,
        s.sent ++ [frameRange m q]⟩) rfl (by dsimp only [Sending.skipTo] at hdist' ⊢; omega)
    refine ⟨s', hpdata, ?_, hdist'', ?_⟩
    · rw [hsent, List.append_assoc]
      rfl
    · rw [List.length_cons, ← Nat.add_assoc, sendLoop_of_inl (hiter.trans hframe)]
      exact hloop

/-- The sender ends with the last frame when there is no room for a header behind it. -/
theorem sendLoop_of_reads_end (hsocket : FullSends socket) {e : ℕ} {qs : List ℕ}
    (h : Linked m cards lim sub e qs stop) (hreads : Reads m e qs) (hne : qs ≠ [])
    (hfits : stop ≤ data + len) (hend : data + len < stop + HPA_HEADER_LEN) (n : ℕ) {s : Sending}
    (hs : s.pdata = e) (hdist : s.sendokLen + s.padLen = s.pdata - data) :
    sendLoop m socket data len (n + qs.length) s =
      ⟨s.sent ++ qs.map (frameRange m), some len⟩ := by
  induction h generalizing s with
  | nil e => exact absurd rfl hne
  | @cons e q stop qs hlink hrest ih =>
    obtain ⟨-, hq, hmax, -⟩ := nextFrame_eq_inr hlink
    obtain ⟨hnear, hmin, hreads⟩ := hreads
    subst hs
    have hiter := sendIter_of_some socket data len
      (nextHeader_of_lt hq (Nat.lt_succ_of_le hnear))
    have hdist' : (s.skipTo q).sendokLen + (s.skipTo q).padLen = (s.skipTo q).pdata - data := by
      dsimp only [Sending.skipTo]
      omega
    obtain ⟨hlast, hmore⟩ :=
      sendFrame_of_fullSends hsocket data len (s := s.skipTo q) hmin hmax hdist'
    rw [List.length_cons, ← Nat.add_assoc]
    by_cases hqs : qs = []
    · subst hqs
      cases hrest
      rw [sendLoop_of_inr (hiter.trans (hlast hend))]
      rfl
    · -- the next frame has room for its header
      have hroom : q + frameLen m q + HPA_HEADER_LEN ≤ data + len := by
        obtain ⟨q', qs', rfl⟩ := List.exists_cons_of_ne_nil hqs
        obtain ⟨-, -, -, -, hle, hstop⟩ := hrest.mem List.mem_cons_self
        have hmin' := hreads.2.1
        omega
      have hloop := ih hreads hqs hfits hend (s :=
        ⟨q + frameLen m q, s.sendokLen + frameLen m q, (s.skipTo q).padLen,
          s.sent ++ [frameRange m q]⟩) rfl (by dsimp only [Sending.skipTo] at hdist' ⊢; omega)
      rw [sendLoop_of_inl (hiter.trans (hmore hroom))]
      refine hloop.trans ?_
      rw [List.append_assoc]
      rfl

/-- The last iteration of the sender, behind the last frame of a run. -/
theorem sendLoop_last (hsocket : FullSends socket)
    (hnext : nextHeader m lim stop = some (data + len))
    (hmax : frameLen m (data + len) ≤ HPA_MAXDATA_LEN) (n : ℕ) {s : Sending} (hs : s.pdata = stop)
    (hdist : s.sendokLen + s.padLen = s.pdata - data) :
    sendLoop m socket data len (n + 1) s =
      if stop + 32 < data + len then ⟨s.sent, some (stop - data)⟩
      else if frameLen m (data + len) < HPA_HEADER_LEN then ⟨s.sent, some len⟩
      else ⟨s.sent ++ [frameRange m (data + len)], some len⟩ := by
  subst hs
  have hpos : 0 < HPA_HEADER_LEN := by decide
  split_ifs with hfar hshort
  · have hnone : nextHeader m (s.pdata + 33) s.pdata = none := by
      cases hq : nextHeader m (s.pdata + 33) s.pdata with
      | none => rfl
      | some q =>
        have hlt := (nextHeader_le hq).2
        rw [nextHeader_unique hq hnext] at hlt
        omega
    rw [sendLoop_of_inr (sendIter_of_none _ _ _ hnone), hdist]
  · have hiter := sendIter_of_some socket data len
      (nextHeader_of_lt hnext (Nat.lt_succ_of_le (not_lt.mp hfar)))
    have hret : s.sendokLen + (s.padLen + ((data + len : ℕ) - s.pdata)) = len := by omega
    have hframe :
        sendFrame m socket data len (s.skipTo (data + len)) = .inr ⟨s.sent, some len⟩ := by
      simp only [sendFrame, Sending.skipTo, hshort, true_or, if_true, hret]
    rw [sendLoop_of_inr (hiter.trans hframe)]
  · have hiter := sendIter_of_some socket data len
      (nextHeader_of_lt hnext (Nat.lt_succ_of_le (not_lt.mp hfar)))
    have hdist' : (s.skipTo (data + len)).sendokLen + (s.skipTo (data + len)).padLen =
        (s.skipTo (data + len)).pdata - data := by
      dsimp only [Sending.skipTo]
      omega
    have hframe := (sendFrame_of_fullSends hsocket data len (s := s.skipTo (data + len))
      (not_lt.mp hshort) hmax hdist').1 (by dsimp only [Sending.skipTo]; omega)
    rw [sendLoop_of_inr (hiter.trans hframe)]
    rfl

end Loop

end M57Card.Uplink
