import M57Card.Uplink.Sender

/-!
# The bytes that a client is sent

`_send_vec_entry` (`net_thread.c`, lines 475–504) adds the length of a vector to the bytes of its
key, sends the vector, and adds the result to the bytes that were sent to the client, and what is
missing to the bytes that were not. The sender walks through the frames of the vector; a gap of up
to 32 bytes in front of a frame, and less than a header behind the last one, count as sent. Its loop
goes on as long as the bytes sent and skipped are less than the length of the vector, and moves by
the frames, whether they are sent or not.

A call of `tcp_send_data_to_client` has sent the bytes that its result says, and none when the
result is -1. The variables of the sender are of type `int`, and the vectors of the router are not
longer than `XDMA_BLOCK_SIZE`.

## Main definitions

* `ClientStat`, `sendVecEntry`.
* `FramesFrom` : a sequence of frames with gaps between them.
* `bytesSent`, `unsent` : what the calls send, and what they leave over.

## Main results

* `sendLoop_account` : the sender goes through all frames, whatever the calls send.
* `sendVecEntry_accounts` : the counters after a vector.
-/

namespace M57Card.Uplink

open M57

/-! ### The model -/

/-- The counters of `struct net_statistics_client`. -/
structure ClientStat where
  send : BitVec 64 := 0
  sendErr : BitVec 64 := 0
  deriving DecidableEq

/-- `statistics_client_send_add`; the number of bytes is a `uint32_t`. -/
def ClientStat.sendAdd (bytes : ℤ) (st : ClientStat) : ClientStat :=
  { st with send := st.send + (BitVec.ofInt 32 bytes).setWidth 64 }

/-- `statistics_client_send_err_add`. -/
def ClientStat.sendErrAdd (bytes : ℤ) (st : ClientStat) : ClientStat :=
  { st with sendErr := st.sendErr + (BitVec.ofInt 32 bytes).setWidth 64 }

/-- What `_send_vec_entry` leaves: its result, the table, the counters, and the ranges that it has
passed to `tcp_send_data_to_client`. -/
structure VecEntry where
  ret : ℤ
  table : SpmHash Iovec
  stat : ClientStat
  sent : List (ℕ × ℕ)

/-- `_send_vec_entry` for a vector of a key, with a client; no result when a call of `send` has not
returned. -/
def sendVecEntry (m : Mem) (socket : ℕ → ℕ → List SendResult) (t : SpmHash Iovec) (key : ℤ)
    (v : Iovec) (st : ClientStat) : Option VecEntry :=
  if v.len = 0 then
    some ⟨-1, t, st, []⟩
  else
    let t := spmHashSetSendbytes t key v.len
    let out := dataSendPackage m socket v.base v.len
    out.ret.map fun r =>
      let st := if 0 < r then st.sendAdd r else st
      let st := if 0 < v.len - r ∧ 0 ≤ r then st.sendErrAdd (v.len - r) else st
      ⟨r, t, st, out.sent⟩

/-! ### Frames with gaps -/

/-- A frame that the sender takes. -/
structure IsSendFrame (m : Mem) (p : ℕ) : Prop where
  sync : IsSync m p
  min : HPA_HEADER_LEN ≤ frameLen m p
  max : frameLen m p ≤ HPA_MAXDATA_LEN

/-- The frames `ps` lie behind each other from `p` to `e`, with up to four groups of eight bytes
without a sync word between them. -/
inductive FramesFrom (m : Mem) : ℕ → List ℕ → ℕ → Prop
  | last {p : ℕ} (hp : IsSendFrame m p) : FramesFrom m p [p] (p + frameLen m p)
  | cons {p k e : ℕ} {ps : List ℕ} (hp : IsSendFrame m p) (hk : k ≤ 4)
      (hfill : ∀ i < k, ¬ IsSync m (p + frameLen m p + 8 * i))
      (hrest : FramesFrom m (p + frameLen m p + 8 * k) ps e) : FramesFrom m p (p :: ps) e

/-- The bytes that a call of `tcp_send_data_to_client` has sent by its result. -/
def bytesSent (rs : List SendResult) (buflen : ℕ) : ℕ :=
  ((tcpSendDataToClient rs buflen).getD 0).toNat

/-- The bytes of the frames that the calls leave over; the calls are numbered from `i` on. -/
def unsent (m : Mem) (socket : ℕ → ℕ → List SendResult) : ℕ → List ℕ → ℕ
  | _, [] => 0
  | i, p :: ps =>
      (frameLen m p - bytesSent (socket i (frameLen m p)) (frameLen m p)) +
        unsent m socket (i + 1) ps

/-! ### The loop of the sender -/

theorem tcpSendLoop_le (rs : List SendResult) (buflen ret : ℕ) {r : ℤ}
    (h : tcpSendLoop rs buflen ret = some r) : r ≤ (ret + buflen : ℕ) := by
  induction rs generalizing buflen ret with
  | nil =>
    cases buflen with
    | zero => exact (Option.some.inj h).ge
    | succ n => cases h
  | cons x rs ih =>
    cases buflen with
    | zero =>
      rw [tcpSendLoop] at h
      exact (Option.some.inj h).ge
    | succ n =>
      cases x with
      | sent k =>
        rw [tcpSendLoop] at h
        have hle := ih _ _ h
        have hsum : ret + min k (n + 1) + (n + 1 - min k (n + 1)) = ret + (n + 1) := by omega
        rwa [hsum] at hle
      | again => exact ih _ _ h
      | notConnected =>
        obtain rfl := Option.some.inj h
        exact Int.ofNat_le.mpr (Nat.le_add_right ret (n + 1))
      | error =>
        obtain rfl := Option.some.inj h
        omega

/-- A call sends at most the bytes it is given. -/
theorem bytesSent_le (rs : List SendResult) (buflen : ℕ) : bytesSent rs buflen ≤ buflen := by
  unfold bytesSent
  cases h : tcpSendDataToClient rs buflen with
  | none => exact Nat.zero_le _
  | some r =>
    have hle := tcpSendLoop_le rs buflen 0 h
    rw [Option.getD_some]
    omega

section Loop

variable {m : Mem} {socket : ℕ → ℕ → List SendResult} {data len : ℕ}

theorem FramesFrom.le {p e : ℕ} {ps : List ℕ} (h : FramesFrom m p ps e) :
    p + HPA_HEADER_LEN ≤ e := by
  induction h with
  | last hp => exact Nat.add_le_add_left hp.min _
  | cons hp _ _ _ ih => omega

/-- The bytes left over are bytes of the frames. -/
theorem unsent_le (socket : ℕ → ℕ → List SendResult) {p e : ℕ} {ps : List ℕ}
    (h : FramesFrom m p ps e) (i : ℕ) :
    p + unsent m socket i ps ≤ e := by
  induction h generalizing i with
  | last hp =>
    rw [unsent, unsent, Nat.add_zero]
    exact Nat.add_le_add_left (Nat.sub_le _ _) _
  | cons hp _ _ _ ih =>
    have hrest := ih (i + 1)
    rw [unsent]
    omega

/-- A frame whose call has returned: the sender counts the bytes that were sent, and ends with less
than a header behind the frame. -/
theorem sendFrame_of_some (len : ℕ) {s : Sending} {rv : ℤ} (hp : IsSendFrame m s.pdata)
    (hrv : tcpSendDataToClient (socket s.sent.length (frameLen m s.pdata)) (frameLen m s.pdata) =
      some rv) (hbound : s.sendokLen + s.padLen ≤ s.pdata - data) :
    (data + len < s.pdata + frameLen m s.pdata + HPA_HEADER_LEN →
        sendFrame m socket data len s = .inr ⟨s.sent ++ [frameRange m s.pdata],
          some (s.sendokLen + rv.toNat + (s.padLen +
            (len - ((s.pdata + frameLen m s.pdata : ℕ) - data))))⟩) ∧
      (s.pdata + frameLen m s.pdata + HPA_HEADER_LEN ≤ data + len →
        sendFrame m socket data len s = .inl ⟨s.pdata + frameLen m s.pdata,
          s.sendokLen + rv.toNat, s.padLen, s.sent ++ [frameRange m s.pdata]⟩) := by
  have hmin := hp.min
  have hmax := hp.max
  have hlen : ¬ (frameLen m s.pdata < HPA_HEADER_LEN ∨ HPA_MAXDATA_LEN < frameLen m s.pdata) := by
    omega
  have hok : (if 0 < rv then s.sendokLen + rv else s.sendokLen) = s.sendokLen + rv.toNat := by
    split_ifs with hpos <;> omega
  have hle := bytesSent_le (socket s.sent.length (frameLen m s.pdata)) (frameLen m s.pdata)
  rw [bytesSent, hrv, Option.getD_some] at hle
  have hheader : HPA_HEADER_LEN = 24 := rfl
  constructor
  · intro hend
    have hleft : (len : ℤ) - ((s.pdata + frameLen m s.pdata : ℕ) - data) < HPA_HEADER_LEN := by
      omega
    simp only [sendFrame, hlen, hrv, hleft, hok, if_false, if_true, frameRange]
  · intro hmore
    have hleft : ¬ (len : ℤ) - ((s.pdata + frameLen m s.pdata : ℕ) - data) < HPA_HEADER_LEN := by
      omega
    have hgo : s.sendokLen + rv.toNat + s.padLen < len := by omega
    simp only [sendFrame, hlen, hrv, hleft, hok, hgo, if_false, if_true, frameRange]

/-- **The sender goes through all frames**, whatever the calls send, and its result is short of the
length of the vector by the bytes left over. By induction on the frames: as long as one is left,
there is room for its header, and the bytes counted so far are not more than the distance so far. -/
theorem sendLoop_account {p e : ℕ} {ps : List ℕ} (h : FramesFrom m p ps e)
    (hsends : ∀ i n, ∃ rv, tcpSendDataToClient (socket i n) n = some rv)
    (hfits : e ≤ data + len) (hend : data + len < e + HPA_HEADER_LEN) {n : ℕ} {s : Sending}
    (hn : ps.length ≤ n) (hnext : nextHeader m (s.pdata + 33) s.pdata = some p)
    (hbound : s.sendokLen + s.padLen ≤ s.pdata - data) :
    sendLoop m socket data len n s = ⟨s.sent ++ ps.map (frameRange m),
      some (s.sendokLen + s.padLen + (data + len - s.pdata) -
        unsent m socket s.sent.length ps)⟩ := by
  induction h generalizing n s with
  | @last p hp =>
    obtain ⟨n, rfl⟩ := Nat.exists_eq_add_one_of_ne_zero (Nat.ne_of_gt hn)
    obtain ⟨rv, hrv⟩ := hsends s.sent.length (frameLen m p)
    have hiter := sendIter_of_some socket data len hnext
    have hskip : (s.skipTo p).sendokLen + (s.skipTo p).padLen ≤ (s.skipTo p).pdata - data := by
      dsimp only [Sending.skipTo]
      omega
    have hframe := (sendFrame_of_some len (s := s.skipTo p) hp hrv hskip).1 hend
    have hle := bytesSent_le (socket s.sent.length (frameLen m p)) (frameLen m p)
    rw [sendLoop_of_inr (hiter.trans hframe), unsent, unsent]
    rw [bytesSent, hrv, Option.getD_some] at hle ⊢
    have hret : s.sendokLen + rv.toNat + (s.padLen + (p - s.pdata) +
        (len - ((p + frameLen m p : ℕ) - data))) =
        s.sendokLen + s.padLen + (data + len - s.pdata) - (frameLen m p - rv.toNat + 0 : ℕ) := by
      omega
    exact congrArg (fun r => Sent.mk (s.sent ++ [frameRange m p]) (some r)) hret
  | @cons p k e ps hp hk hfill hrest ih =>
    obtain ⟨n, rfl⟩ := Nat.exists_eq_add_one_of_ne_zero
      (Nat.ne_of_gt (Nat.lt_of_lt_of_le (Nat.succ_pos ps.length) hn))
    obtain ⟨rv, hrv⟩ := hsends s.sent.length (frameLen m p)
    have hiter := sendIter_of_some socket data len hnext
    have hskip : (s.skipTo p).sendokLen + (s.skipTo p).padLen ≤ (s.skipTo p).pdata - data := by
      dsimp only [Sending.skipTo]
      omega
    have hroom := hrest.le
    have hframe := (sendFrame_of_some len (s := s.skipTo p) hp hrv hskip).2
      (by dsimp only [Sending.skipTo]; omega)
    have hle := bytesSent_le (socket s.sent.length (frameLen m p)) (frameLen m p)
    -- the next frame is where the search from the end of this one finds it
    have hsync : IsSync m (p + frameLen m p + 8 * k) := by
      cases hrest with
      | last hp => exact hp.sync
      | cons hp _ _ _ => exact hp.sync
    have hfound : nextHeader m (p + frameLen m p + 33) (p + frameLen m p) =
        some (p + frameLen m p + 8 * k) :=
      nextHeader_eq_some.mpr ⟨k, rfl, by omega, hsync, hfill⟩
    have hrestLoop := ih hfits hend (n := n) (s := ⟨p + frameLen m p, s.sendokLen + rv.toNat,
      (s.skipTo p).padLen, s.sent ++ [frameRange m p]⟩) (Nat.le_of_succ_le_succ hn) hfound
      (by
        rw [bytesSent, hrv, Option.getD_some] at hle
        dsimp only [Sending.skipTo] at hskip ⊢
        omega)
    rw [sendLoop_of_inl (hiter.trans hframe)]
    refine hrestLoop.trans ?_
    rw [unsent, List.append_assoc, List.length_append, List.length_singleton]
    rw [bytesSent, hrv, Option.getD_some] at hle ⊢
    have hret : s.sendokLen + rv.toNat + (s.padLen + (p - s.pdata)) +
        (data + len - (p + frameLen m p : ℕ)) - unsent m socket (s.sent.length + 1) ps =
        s.sendokLen + s.padLen + (data + len - s.pdata) -
          (frameLen m p - rv.toNat + unsent m socket (s.sent.length + 1) ps : ℕ) := by
      omega
    exact congrArg (fun r => Sent.mk (s.sent ++ ((p :: ps).map (frameRange m))) (some r)) hret

/-- **The sender and a sequence of frames.** -/
theorem dataSendPackage_account {e : ℕ} {ps : List ℕ} (h : FramesFrom m data ps e)
    (hsends : ∀ i n, ∃ rv, tcpSendDataToClient (socket i n) n = some rv)
    (hfits : e ≤ data + len) (hend : data + len < e + HPA_HEADER_LEN) :
    dataSendPackage m socket data len =
      ⟨ps.map (frameRange m), some (len - unsent m socket 0 ps : ℕ)⟩ := by
  have hroom := h.le
  have hlen : ¬ len < HPA_HEADER_LEN := by omega
  have hsync : IsSync m data := by
    cases h with
    | last hp => exact hp.sync
    | cons hp _ _ _ => exact hp.sync
  have hcount : ps.length ≤ len := by
    have hmul : data + HPA_HEADER_LEN * ps.length ≤ e := by
      clear hroom hlen hsync hfits hend
      induction h with
      | last hp => exact Nat.add_le_add_left hp.min _
      | cons hp _ _ _ ih =>
        have hmin := hp.min
        rw [List.length_cons, Nat.mul_succ]
        omega
    have hpos : ps.length ≤ HPA_HEADER_LEN * ps.length := Nat.le_mul_of_pos_left _ (by decide)
    omega
  have hloop := sendLoop_account h hsends hfits hend (n := len) (s := { pdata := data }) hcount
    (nextHeader_of_isSync hsync (Nat.lt_add_of_pos_right (by decide))) (by dsimp only; omega)
  have hunsent := unsent_le socket h 0
  have hret : (0 : ℤ) + 0 + (data + len - data) - unsent m socket 0 ps =
      (len - unsent m socket 0 ps : ℕ) := by omega
  rw [dataSendPackage, if_neg hlen, hloop]
  exact congrArg (fun r => Sent.mk (ps.map (frameRange m)) (some r)) hret

end Loop

/-! ### The counters -/

/-- A number of bytes that is an `int` is added as it is. -/
theorem setWidth_ofInt {n : ℕ} (hn : n < 2 ^ 31) :
    (BitVec.ofInt 32 (n : ℤ)).setWidth 64 = BitVec.ofNat 64 n := by
  rw [BitVec.ofInt_natCast]
  refine BitVec.eq_of_toNat_eq ?_
  simp only [BitVec.toNat_setWidth, BitVec.toNat_ofNat]
  omega

/-- The bytes of a key after a vector of it. -/
theorem sendBytes_spmHashSetSendbytes (t : SpmHash Iovec) (key k : ℤ) (bytes : ℕ) :
    sendBytes (spmHashSetSendbytes t key bytes) k =
      if k = key then (sendBytes t k).map fun sent => (sent + bytes) % 2 ^ 64
      else sendBytes t k := by
  rw [sendBytes, spmHashSetSendbytes, CacheHash.find_modify, sendBytes]
  split_ifs
  · rw [Option.map_map, Option.map_map]
    rfl
  · rfl

/-- **The counters after a vector** that is a sequence of frames with less than a header behind the
last one: the bytes of the key grow by its length, the bytes sent by its length without what the
calls have left over, and the bytes not sent by that; and all frames are passed on in their order.
-/
theorem sendVecEntry_accounts (m : Mem) (socket : ℕ → ℕ → List SendResult) (t : SpmHash Iovec)
    (key : ℤ) (v : Iovec) (st : ClientStat) {ps : List ℕ} {e : ℕ}
    (hframes : FramesFrom m v.base ps e) (hfits : e ≤ v.base + v.len)
    (hend : v.base + v.len < e + HPA_HEADER_LEN) (hint : v.len < 2 ^ 31)
    (hsends : ∀ i n, ∃ rv, tcpSendDataToClient (socket i n) n = some rv) :
    ∃ r, sendVecEntry m socket t key v st = some r ∧ r.sent = ps.map (frameRange m) ∧
      unsent m socket 0 ps ≤ v.len ∧
      r.stat.send = st.send + BitVec.ofNat 64 (v.len - unsent m socket 0 ps) ∧
      r.stat.sendErr = st.sendErr + BitVec.ofNat 64 (unsent m socket 0 ps) ∧
      sendBytes r.table key = (sendBytes t key).map (fun bytes => (bytes + v.len) % 2 ^ 64) ∧
      ∀ k ≠ key, sendBytes r.table k = sendBytes t k := by
  have hroom := hframes.le
  have hunsent := unsent_le socket hframes 0
  have hpackage := dataSendPackage_account hframes hsends hfits hend
  have hne : v.len ≠ 0 := by
    have hheader : HPA_HEADER_LEN = 24 := rfl
    omega
  generalize hleft : unsent m socket 0 ps = left at hunsent hpackage ⊢
  have hsend : (v.len - left : ℕ) < 2 ^ 31 := (Nat.sub_le _ _).trans_lt hint
  have herr : ((v.len : ℤ) - (v.len - left : ℕ)) = left := by omega
  rw [sendVecEntry, if_neg hne, hpackage]
  refine ⟨_, rfl, rfl, by omega, ?_, ?_, ?_, fun k hk => ?_⟩
  · -- the bytes that were not sent do not touch the bytes sent
    have hadd : (if (0 : ℤ) < (v.len - left : ℕ) then st.sendAdd (v.len - left : ℕ) else st).send =
        st.send + BitVec.ofNat 64 (v.len - left) := by
      split_ifs with hpos
      · exact congrArg (st.send + ·) (setWidth_ofInt hsend)
      · have hzero : v.len - left = 0 := by omega
        rw [hzero]
        exact (BitVec.add_zero _).symm
    rw [← hadd]
    dsimp only
    split_ifs <;> rfl
  · have hadd (st' : ClientStat) :
        (if 0 < (v.len : ℤ) - (v.len - left : ℕ) ∧ (0 : ℤ) ≤ (v.len - left : ℕ) then
          st'.sendErrAdd (v.len - (v.len - left : ℕ)) else st').sendErr =
        st'.sendErr + BitVec.ofNat 64 left := by
      rw [herr]
      split_ifs with hpos
      · exact congrArg (st'.sendErr + ·) (setWidth_ofInt (by omega))
      · have hzero : left = 0 := by omega
        rw [hzero]
        exact (BitVec.add_zero _).symm
    refine (hadd _).trans (congrArg (· + BitVec.ofNat 64 left) ?_)
    split_ifs <;> rfl
  · exact (sendBytes_spmHashSetSendbytes t key key v.len).trans (if_pos rfl)
  · exact (sendBytes_spmHashSetSendbytes t key k v.len).trans (if_neg hk)

/-- Two frames with a gap, and four bytes behind the second one. -/
def twoFrames : Mem :=
  .ofList (headerBytes 0 24 5 1 1 ++ List.replicate 8 0 ++ headerBytes 0 24 5 1 1 ++ [0, 0, 0, 0])

/-- A call that finds the client gone in the end returns. -/
theorem tcpSendLoop_append_notConnected (rs : List SendResult) (buflen ret : ℕ) :
    ∃ rv, tcpSendLoop (rs ++ [.notConnected]) buflen ret = some rv := by
  induction rs generalizing buflen ret with
  | nil => cases buflen <;> exact ⟨_, rfl⟩
  | cons x rs ih =>
    cases buflen with
    | zero => exact ⟨_, rfl⟩
    | succ n =>
      cases x with
      | sent k => exact ih _ _
      | again => exact ih _ _
      | notConnected => exact ⟨_, rfl⟩
      | error => exact ⟨_, rfl⟩

/-- The first frame is sent in two parts, behind an interruption; then the client is gone. -/
def halfSocket (i : ℕ) (_ : ℕ) : List SendResult :=
  (if i = 0 then [.again, .sent 10, .sent 14] else []) ++ [.notConnected]

/-- A table with two keys, of which the first has recorded a hundred bytes. -/
def twoKeys : SpmHash Iovec :=
  spmHashSetSendbytes (spmHashRenew (spmHashRenew spmHashCreate 5 ⟨0, 60⟩).1 7 ⟨0, 60⟩).1 5 100

/-- A client that leaves between the frames has been sent the first one. -/
theorem sendVecEntry_accounts_twoFrames :
    ∃ r, sendVecEntry twoFrames halfSocket twoKeys 5 ⟨0, 60⟩ {} = some r ∧
      r.sent = [0, 32].map (frameRange twoFrames) ∧
      r.stat.send = 36 ∧ r.stat.sendErr = 24 ∧
      sendBytes r.table 5 = some 160 ∧ sendBytes r.table 7 = some 0 := by
  have hframe (p : ℕ) (hp : p = 0 ∨ p = 32) : IsSendFrame twoFrames p := by
    rcases hp with rfl | rfl
    · exact ⟨by decide, by decide, by decide⟩
    · exact ⟨by decide, by decide, by decide⟩
  have hframes : FramesFrom twoFrames 0 [0, 32] 56 :=
    .cons (k := 1) (hframe 0 (.inl rfl)) (by decide) (by decide) (.last (hframe 32 (.inr rfl)))
  have hsends : ∀ i n, ∃ rv, tcpSendDataToClient (halfSocket i n) n = some rv := fun i n =>
    tcpSendLoop_append_notConnected _ n 0
  have hunsent : unsent twoFrames halfSocket 0 [0, 32] = 24 := by decide
  obtain ⟨r, hr, hsent, -, hsend, herr, hkey, hother⟩ :=
    sendVecEntry_accounts twoFrames halfSocket twoKeys 5 ⟨0, 60⟩ {} hframes (by decide) (by decide)
      (by decide) hsends
  rw [hunsent] at hsend herr
  refine ⟨r, hr, hsent, hsend, herr, hkey.trans (by decide), ?_⟩
  exact (hother 7 (by decide)).trans (by decide)

end M57Card.Uplink
