import M57Card.Protocol.Execute
import M57Card.Uplink.Keys

/-!
# Subscriptions and the frames of a client

DATA_SUB enters the key of a subscription in the table of the client, DATA_UNSUB removes it, and
`client_hash_do_for_each_key` (`net_sub.c`, lines 108–131) calls the sender for a vector if and only
if the key of the vector is in the table. A key has three bits for the slot, two for the chip, eight
for the function, one for the priority and two for the port, and each of the fields is reduced to
its bits (`bsp.h`, lines 29–63). Subscriptions whose ids agree in these bits are one subscription:
the one gets the frames of the other, and is removed with it. The table takes `MAX_RANDOM_ENTRIES`
keys.

A history is a list of commands of one client, each with the length that its header announces; the
priority of the client is fixed, which is what the commands REGISTER of the history say.

## Main definitions

* `clientHashDoForEachKey` : whether the sender is called for a key.
* `runCmds` : the connection after some commands.
* `Subscribed` : subscribed and not later unsubscribed.
* `SubId.reduced` : the bits of the ids that the key has.

## Main results

* `key_eq_iff` : when two subscriptions share a key.
* `clientHashDoForEachKey_iff` : which frames a client gets.
-/

namespace M57Card.Uplink

open M57 Net Bytes

/-! ### Histories of commands -/

/-- The entry of the client in the list of the server. -/
def myPeer (c : Ctx) : Option Peer := c.host.peers.find? fun p => p.id == c.me

/-- The subscription table of the client. -/
def myTable (c : Ctx) : List ℕ := ((myPeer c).map Peer.hash).getD []

/-- `client_hash_do_for_each_key`: whether the callback is called for a key. -/
def clientHashDoForEachKey (c : Ctx) (key : ℤ) : Bool :=
  (myTable c).any fun k => decide ((k : ℤ) = key)

/-- The connection after some commands, each with its length and its body. -/
def runCmds (cn : Conn Ctx) (cmds : List (ℕ × List UInt8)) : Conn Ctx :=
  cmds.foldl (fun cn x => (m57ExecuteCmd x.1 x.2 cn).1) cn

/-- A command of a client whose priority stays `prio`: REGISTER with this priority, DATA_SUB or
DATA_UNSUB. -/
def KeepsPrio (prio : ℤ) (body : List UInt8) : Prop :=
  (cardCmd (u16 body 0) = .register ∧ (if byteAt body 8 = 1 then 0 else 1) = prio) ∨
    cardCmd (u16 body 0) = .dataSub ∨ cardCmd (u16 body 0) = .dataUnsub

/-- The ids of a subscription. -/
structure SubId where
  chip : ℕ
  func : ℕ
  port : ℕ
  deriving DecidableEq

/-- The ids of a DATA_SUB or DATA_UNSUB command. -/
def subIdOf (body : List UInt8) : SubId := ⟨u16 body 8, u16 body 10, u16 body 12⟩

/-- The ids of a frame. -/
def NetSub.subId (sub : NetSub) : SubId := ⟨sub.chipId, sub.funcId, sub.port⟩

/-- The bits of the ids that the key has: slot, chip, function and port. -/
def SubId.reduced (i : SubId) : ℕ × ℕ × ℕ × ℕ :=
  (cardSlotNum i.chip, cardChipNum i.chip, i.func % 256, i.port % 4)

/-- The key of a subscription. -/
def SubId.key (i : SubId) (prio : ℤ) : ℕ := getHashmapId i.chip i.func prio i.port

/-- A history has subscribed to `id` and not unsubscribed from it later, where a subscription is
known by the part `r` of its ids; its chip must have been valid, and `room` must have held of the
history before it. -/
def Subscribed {β : Type} (r : SubId → β) (room : List (ℕ × List UInt8) → Prop)
    (valid : ℕ → Bool) (cmds : List (ℕ × List UInt8)) (id : β) : Prop :=
  ∃ pre x post, cmds = pre ++ x :: post ∧ cardCmd (u16 x.2 0) = .dataSub ∧
    valid (subIdOf x.2).chip = true ∧ room pre ∧ r (subIdOf x.2) = id ∧
    ∀ y ∈ post, cardCmd (u16 y.2 0) = .dataUnsub → r (subIdOf y.2) ≠ id

/-- One more command of a history. -/
theorem subscribed_append_singleton {β : Type} {r : SubId → β}
    {room : List (ℕ × List UInt8) → Prop} {valid : ℕ → Bool} {cmds : List (ℕ × List UInt8)}
    {x : ℕ × List UInt8} {id : β} :
    Subscribed r room valid (cmds ++ [x]) id ↔
      (Subscribed r room valid cmds id ∧
          ¬ (cardCmd (u16 x.2 0) = .dataUnsub ∧ r (subIdOf x.2) = id)) ∨
        (cardCmd (u16 x.2 0) = .dataSub ∧ valid (subIdOf x.2).chip = true ∧ room cmds ∧
          r (subIdOf x.2) = id) := by
  constructor
  · rintro ⟨pre, y, post, heq, hsub, hvalid, hroom, hid, hlater⟩
    rcases List.eq_nil_or_concat post with rfl | ⟨post, z, rfl⟩
    · obtain ⟨rfl, hx⟩ := List.append_inj' heq rfl
      obtain rfl : x = y := List.singleton_inj.mp hx
      exact .inr ⟨hsub, hvalid, hroom, hid⟩
    · rw [List.concat_eq_append, ← List.cons_append, ← List.append_assoc] at heq
      obtain ⟨rfl, hx⟩ := List.append_inj' heq rfl
      obtain rfl : x = z := List.singleton_inj.mp hx
      rw [List.concat_eq_append] at hlater
      refine .inl ⟨⟨pre, y, post, rfl, hsub, hvalid, hroom, hid, fun w hw => ?_⟩, fun hun => ?_⟩
      · exact hlater w (List.mem_append_left _ hw)
      · exact hlater x (List.mem_append_right _ (List.mem_singleton_self x)) hun.1 hun.2
  · rintro (⟨⟨pre, y, post, rfl, hsub, hvalid, hroom, hid, hlater⟩, hkeep⟩ |
      ⟨hsub, hvalid, hroom, hid⟩)
    · refine ⟨pre, y, post ++ [x], by rw [List.append_assoc, List.cons_append], hsub, hvalid, hroom,
        hid, fun w hw hun => ?_⟩
      rcases List.mem_append.mp hw with hw | hw
      · exact hlater w hw hun
      · rw [List.mem_singleton.mp hw] at hun ⊢
        exact fun h => hkeep ⟨hun, h⟩
    · exact ⟨cmds, x, [], rfl, hsub, hvalid, hroom, hid, fun y hy => absurd hy List.not_mem_nil⟩

/-! ### Keys -/

/-- **Two subscriptions share a key** if and only if their ids agree in the bits that the key has,
and their priorities do. -/
theorem key_eq_iff (i j : SubId) (p q : ℤ) :
    i.key p = j.key q ↔ i.reduced = j.reduced ∧ p % 2 = q % 2 := by
  have hslot (x : ℕ) : cardSlotNum x < 8 := Nat.mod_lt _ (by decide)
  have hchip (x : ℕ) : cardChipNum x < 4 := Nat.mod_lt _ (by decide)
  have hi := hslot i.chip
  have hj := hslot j.chip
  have hi' := hchip i.chip
  have hj' := hchip j.chip
  simp only [SubId.key, SubId.reduced, getHashmapId, Prod.mk.injEq]
  omega

/-! ### What the commands do to the table -/

/-- A client of the server with a given priority. The clients are known by their ids. -/
structure IsClient (c : Ctx) (prio : ℤ) : Prop where
  ids : (c.host.peers.map Peer.id).Nodup
  mine : ∃ me, myPeer c = some me ∧ me.prio = prio

section Table

variable {c : Ctx} {prio : ℤ} {body : List UInt8}

theorem id_of_myPeer {me : Peer} (h : myPeer c = some me) : me.id = c.me := by
  have hid := List.find?_some h
  exact eq_of_beq hid

/-- A change of the entry of one client. -/
theorem myPeer_onPeer (id : ℕ) {f : Peer → Peer} (hf : ∀ p, (f p).id = p.id) :
    myPeer (c.onHost (Host.onPeer id f)) =
      (myPeer c).map fun p => if p.id = id then f p else p := by
  have hid (p : Peer) : (if p.id = id then f p else p).id = p.id := by
    split_ifs
    · exact hf p
    · rfl
  rw [myPeer, Ctx.onHost, Host.onPeer, List.find?_map, myPeer]
  simp only [Function.comp_def, hid]

theorem map_id_onPeer (id : ℕ) {f : Peer → Peer} (hf : ∀ p, (f p).id = p.id) :
    (c.onHost (Host.onPeer id f)).host.peers.map Peer.id = c.host.peers.map Peer.id := by
  have hid (p : Peer) : (if p.id = id then f p else p).id = p.id := by
    split_ifs
    · exact hf p
    · rfl
  rw [Ctx.onHost, Host.onPeer, List.map_map]
  simp only [Function.comp_def, hid]

/-- The partner of a client is a client with the other priority. -/
theorem tcpFindPrioClient_eq_some {peers : List Peer} {me partner : Peer} {prio : ℤ}
    (h : tcpFindPrioClient peers me prio = some partner) :
    partner ∈ peers ∧ partner.prio = prio := by
  rw [tcpFindPrioClient, Option.orElse_eq_some] at h
  rcases h with h | ⟨-, h⟩
  · have hprio := List.find?_some h
    simp only [Bool.and_eq_true, beq_iff_eq] at hprio
    exact ⟨List.mem_of_find?_eq_some h, hprio.1.2⟩
  · have hprio := List.find?_some h
    simp only [Bool.and_eq_true, beq_iff_eq] at hprio
    exact ⟨List.mem_of_find?_eq_some h, hprio.2⟩

/-- The partner of a client is another client. -/
theorem partner_ne {peers : List Peer} {me partner : Peer}
    (hpartner : tcpFindPrioClient peers me (if me.prio = 0 then 1 else 0) = some partner) :
    partner ≠ me := by
  rintro rfl
  have hprio := (tcpFindPrioClient_eq_some hpartner).2
  split_ifs at hprio with hzero
  · rw [hzero] at hprio
    exact absurd hprio (by decide)
  · exact hzero hprio

/-- The common part of DATA_SUB and DATA_UNSUB changes the entry of the client once: its partner is
another client. -/
theorem myPeer_onSubscription (body : List UInt8) {f : ℕ → Peer → Peer}
    (hf : ∀ k p, (f k p).id = p.id) (hids : (c.host.peers.map Peer.id).Nodup) {me : Peer}
    (hme : myPeer c = some me) :
    myPeer (onSubscription f body c) = some (f ((subIdOf body).key me.prio) me) ∧
      (onSubscription f body c).host.peers.map Peer.id = c.host.peers.map Peer.id := by
  have hfind : (c.host.peers.find? fun p => p.id == c.me) = some me := hme
  have hid := id_of_myPeer hme
  have hfirst : myPeer (c.onHost (Host.onPeer c.me fun p =>
      f (getHashmapId (u16 body 8) (u16 body 10) p.prio (u16 body 12)) p)) =
        some (f ((subIdOf body).key me.prio) me) := by
    rw [myPeer_onPeer _ fun p => hf _ p, hme, Option.map_some, if_pos hid]
    rfl
  cases hpartner : tcpFindPrioClient c.host.peers me (if me.prio = 0 then 1 else 0) with
  | none =>
    simp only [onSubscription, hfind, hpartner]
    exact ⟨hfirst, map_id_onPeer _ fun p => hf _ p⟩
  | some partner =>
    obtain ⟨hmem, -⟩ := tcpFindPrioClient_eq_some hpartner
    have hother : me.id ≠ partner.id := fun heq => partner_ne hpartner
      (List.inj_on_of_nodup_map hids (List.mem_of_find?_eq_some hfind) hmem heq).symm
    simp only [onSubscription, hfind, hpartner]
    refine ⟨?_, ?_⟩
    · rw [myPeer_onPeer _ fun p => hf _ p, hfirst, Option.map_some, if_neg]
      rwa [hf]
    · rw [map_id_onPeer _ fun p => hf _ p, map_id_onPeer _ fun p => hf _ p]

theorem id_clientHashInsert (k : ℕ) (p : Peer) : (clientHashInsert k p).id = p.id := by
  rw [clientHashInsert]
  split_ifs <;> rfl

theorem prio_clientHashInsert (k : ℕ) (p : Peer) : (clientHashInsert k p).prio = p.prio := by
  rw [clientHashInsert]
  split_ifs <;> rfl

/-- The key of the command is in the table afterwards, if there was room for it; no other key
comes or goes. -/
theorem mem_hash_clientHashInsert {key k : ℕ} {p : Peer} :
    k ∈ (clientHashInsert key p).hash ↔
      k ∈ p.hash ∨ k = key ∧ p.hash.length < MAX_RANDOM_ENTRIES := by
  rw [clientHashInsert]
  split_ifs with hrefused
  · refine ⟨.inl, ?_⟩
    rintro (hk | ⟨rfl, hroom⟩)
    · exact hk
    · rcases hrefused with hfull | hin
      · exact absurd hroom (not_lt.mpr hfull)
      · exact hin
  · rw [List.mem_append, List.mem_singleton]
    obtain ⟨hroom, -⟩ := not_or.mp hrefused
    exact or_congr_right (and_iff_left (not_le.mp hroom)).symm

theorem mem_hash_clientHashDeleteItem {key k : ℕ} {p : Peer} :
    k ∈ (clientHashDeleteItem key p).hash ↔ k ∈ p.hash ∧ k ≠ key := by
  rw [clientHashDeleteItem, List.mem_filter, decide_eq_true_eq]

theorem myTable_of_myPeer {me : Peer} (h : myPeer c = some me) : myTable c = me.hash := by
  rw [myTable, h]
  rfl

/-- REGISTER sets the priority of the client and leaves its table. -/
theorem isClient_registerClient (body : List UInt8) (hc : IsClient c prio) :
    IsClient (registerClient body c) (if byteAt body 8 = 1 then 0 else 1) ∧
      (registerClient body c).host.cards = c.host.cards ∧
      myTable (registerClient body c) = myTable c := by
  obtain ⟨hids, me, hme, -⟩ := hc
  have hid (p : Peer) : ({ p with prio := if byteAt body 8 = 1 then 0 else 1 } : Peer).id = p.id :=
    rfl
  have hpeer : myPeer (registerClient body c) =
      some { me with prio := if byteAt body 8 = 1 then 0 else 1 } := by
    have hon := myPeer_onPeer (c := c) c.me hid
    rw [hme, Option.map_some, if_pos (id_of_myPeer hme)] at hon
    exact hon
  refine ⟨⟨?_, _, hpeer, rfl⟩, rfl, ?_⟩
  · have hon := map_id_onPeer (c := c) c.me hid
    rw [← hon] at hids
    exact hids
  · rw [myTable_of_myPeer hpeer, myTable_of_myPeer hme]

/-- DATA_SUB and DATA_UNSUB change the table of the client by the key of the command. -/
theorem isClient_onSubscription (body : List UInt8) {f : ℕ → Peer → Peer}
    (hf : ∀ k p, (f k p).id = p.id) (hprio : ∀ k p, (f k p).prio = p.prio) (hc : IsClient c prio) :
    IsClient (onSubscription f body c) prio ∧
      (onSubscription f body c).host.cards = c.host.cards ∧
      ∃ me, myTable c = me.hash ∧
        myTable (onSubscription f body c) = (f ((subIdOf body).key prio) me).hash := by
  obtain ⟨hids, me, hme, rfl⟩ := hc
  obtain ⟨hpeer, hids'⟩ := myPeer_onSubscription body hf hids hme
  obtain ⟨peers, hframe⟩ := onSubscription_eq f body c
  refine ⟨⟨by rwa [hids'], _, hpeer, hprio _ _⟩, by rw [hframe]; rfl, me, myTable_of_myPeer hme,
    myTable_of_myPeer hpeer⟩

theorem proto_register (hcmd : cardCmd (u16 body 0) = .register) (n : ℕ) (cn : Conn Ctx) :
    (m57ExecuteCmd n body cn).1.proto =
      registerClient body (cn.proto.emit (.execute body)) := by
  simp only [m57ExecuteCmd, executeSwitch, hcmd]
  rfl

theorem proto_dataSub (hcmd : cardCmd (u16 body 0) = .dataSub) (n : ℕ) (cn : Conn Ctx) :
    (m57ExecuteCmd n body cn).1.proto = dataSub body (cn.proto.emit (.execute body)) := by
  simp only [m57ExecuteCmd, executeSwitch, hcmd]
  rfl

theorem proto_dataUnsub (hcmd : cardCmd (u16 body 0) = .dataUnsub) (n : ℕ) (cn : Conn Ctx) :
    (m57ExecuteCmd n body cn).1.proto = dataUnsub body (cn.proto.emit (.execute body)) := by
  simp only [m57ExecuteCmd, executeSwitch, hcmd]
  rfl

/-- One command of a client: its priority and the cards stay, and the table changes by the key of
the command. -/
theorem isClient_m57ExecuteCmd {cn : Conn Ctx} (hc : IsClient cn.proto prio)
    (hbody : KeepsPrio prio body) (n : ℕ) :
    IsClient (m57ExecuteCmd n body cn).1.proto prio ∧
      (m57ExecuteCmd n body cn).1.proto.host.cards = cn.proto.host.cards ∧
      ∀ k, k ∈ myTable (m57ExecuteCmd n body cn).1.proto ↔
        (k ∈ myTable cn.proto ∧
            ¬ (cardCmd (u16 body 0) = .dataUnsub ∧ k = (subIdOf body).key prio)) ∨
          (cardCmd (u16 body 0) = .dataSub ∧
            cn.proto.host.cards (cardSlotNum (subIdOf body).chip) = true ∧
            (myTable cn.proto).length < MAX_RANDOM_ENTRIES ∧ k = (subIdOf body).key prio) := by
  have hc' : IsClient (cn.proto.emit (.execute body)) prio := ⟨hc.ids, hc.mine⟩
  rcases hbody with ⟨hcmd, hreg⟩ | hcmd | hcmd
  · obtain ⟨hclient, hcards, htable⟩ := isClient_registerClient body hc'
    rw [hreg] at hclient
    rw [proto_register hcmd]
    refine ⟨hclient, hcards, fun k => ?_⟩
    rw [htable]
    simp only [hcmd, reduceCtorEq, false_and, not_false_eq_true, and_true, or_false]
    rfl
  · rw [proto_dataSub hcmd, dataSub]
    simp only [hcmd, reduceCtorEq, false_and, not_false_eq_true, and_true, true_and]
    split_ifs with hvalid
    · obtain ⟨hclient, hcards, me, hme, htable⟩ := isClient_onSubscription body
        (f := clientHashInsert) id_clientHashInsert prio_clientHashInsert hc'
      have hvalid' : cn.proto.host.cards (cardSlotNum (subIdOf body).chip) = true := hvalid
      refine ⟨hclient, hcards, fun k => ?_⟩
      rw [htable, mem_hash_clientHashInsert, ← hme]
      simp only [hvalid', true_and, and_comm]
      rfl
    · have hvalid' : ¬ cn.proto.host.cards (cardSlotNum (subIdOf body).chip) = true := hvalid
      refine ⟨hc', rfl, fun k => ?_⟩
      rw [or_iff_left fun h => hvalid' h.1]
      rfl
  · obtain ⟨hclient, hcards, me, hme, htable⟩ := isClient_onSubscription body
      (f := clientHashDeleteItem) (fun _ _ => rfl) (fun _ _ => rfl) hc'
    rw [proto_dataUnsub hcmd, dataUnsub]
    refine ⟨hclient, hcards, fun k => ?_⟩
    rw [htable, mem_hash_clientHashDeleteItem, ← hme]
    simp only [hcmd, reduceCtorEq, false_and, or_false, true_and]
    rfl

end Table

/-! ### Which frames a client gets -/

section Histories

variable {cn : Conn Ctx} {prio : ℤ} {cmds : List (ℕ × List UInt8)}

/-- The table still takes a key after some commands. -/
def HasRoomAfter (cn : Conn Ctx) (cmds : List (ℕ × List UInt8)) : Prop :=
  (myTable (runCmds cn cmds).proto).length < MAX_RANDOM_ENTRIES

theorem runCmds_append_singleton (cn : Conn Ctx) (cmds : List (ℕ × List UInt8))
    (x : ℕ × List UInt8) :
    runCmds cn (cmds ++ [x]) = (m57ExecuteCmd x.1 x.2 (runCmds cn cmds)).1 := by
  rw [runCmds, List.foldl_append]
  rfl

/-- The table of a client after a history: the keys of what it has subscribed to, for the ids as far
as the key has them. -/
theorem mem_myTable_runCmds (hc : IsClient cn.proto prio) (hnew : myTable cn.proto = [])
    (hcmds : ∀ x ∈ cmds, KeepsPrio prio x.2) :
    IsClient (runCmds cn cmds).proto prio ∧
      (runCmds cn cmds).proto.host.cards = cn.proto.host.cards ∧
      (∀ k ∈ myTable (runCmds cn cmds).proto, ∃ i : SubId, k = i.key prio) ∧
      ∀ i : SubId, i.key prio ∈ myTable (runCmds cn cmds).proto ↔
        Subscribed SubId.reduced (HasRoomAfter cn) (ioXdmaIsValidChipid cn.proto.host) cmds
          i.reduced := by
  induction cmds using List.reverseRecOn with
  | nil =>
    have hempty : myTable (runCmds cn []).proto = [] := hnew
    refine ⟨hc, rfl, fun k hk => ?_, fun i => iff_of_false (fun hk => ?_) ?_⟩
    · rw [hempty] at hk
      cases hk
    · rw [hempty] at hk
      cases hk
    · rintro ⟨pre, x, post, heq, -⟩
      exact absurd heq.symm (List.append_ne_nil_of_right_ne_nil _ (List.cons_ne_nil _ _))
  | append_singleton cmds x ih =>
    obtain ⟨hclient, hcards, hkeys, hmem⟩ :=
      ih fun y hy => hcmds y (List.mem_append_left _ hy)
    have hx := hcmds x (List.mem_append_right _ (List.mem_singleton_self x))
    obtain ⟨hclient', hcards', htable⟩ := isClient_m57ExecuteCmd hclient hx x.1
    rw [runCmds_append_singleton]
    refine ⟨hclient', hcards'.trans hcards, fun k hk => ?_, fun i => ?_⟩
    · rcases (htable k).mp hk with ⟨hk, -⟩ | ⟨-, -, -, rfl⟩
      · exact hkeys k hk
      · exact ⟨subIdOf x.2, rfl⟩
    · have hkey : i.key prio = (subIdOf x.2).key prio ↔ (subIdOf x.2).reduced = i.reduced := by
        rw [key_eq_iff, and_iff_left rfl, eq_comm]
      rw [htable, hmem, hkey, hcards, subscribed_append_singleton]
      rfl

/-- **Which frames a client gets.** After a history of commands of a client with a fixed priority
the sender is called for the key of a frame if and only if the frame is of the priority of the
client, and the client has subscribed, while its table had room, to ids that agree with those of the
frame in the bits that the key has, and has not unsubscribed later from ids that do. Two
subscriptions share a key if and only if their ids agree in these bits. -/
theorem clientHashDoForEachKey_iff (hprio : prio = 0 ∨ prio = 1) (hc : IsClient cn.proto prio)
    (hnew : myTable cn.proto = []) (hcmds : ∀ x ∈ cmds, KeepsPrio prio x.2) (m : Mem) (p : ℕ) :
    (clientHashDoForEachKey (runCmds cn cmds).proto (frameSub m p).hashId = true ↔
        ((frameSub m p).prioId : ℤ) = prio ∧
          Subscribed SubId.reduced (HasRoomAfter cn) (ioXdmaIsValidChipid cn.proto.host) cmds
            (frameSub m p).subId.reduced) ∧
      ∀ i j : SubId, i.key prio = j.key prio ↔ i.reduced = j.reduced := by
  obtain ⟨-, -, hkeys, hmem⟩ := mem_myTable_runCmds hc hnew hcmds
  have hfound : clientHashDoForEachKey (runCmds cn cmds).proto (frameSub m p).hashId = true ↔
      (frameSub m p).subId.key (frameSub m p).prioId ∈ myTable (runCmds cn cmds).proto := by
    simp only [clientHashDoForEachKey, List.any_eq_true, decide_eq_true_eq]
    constructor
    · rintro ⟨k, hk, heq⟩
      obtain rfl : k = (frameSub m p).subId.key (frameSub m p).prioId := Int.ofNat_inj.mp heq
      exact hk
    · intro hk
      exact ⟨_, hk, rfl⟩
  refine ⟨?_, fun i j => by rw [key_eq_iff, and_iff_left rfl]⟩
  rw [hfound]
  by_cases hclass : ((frameSub m p).prioId : ℤ) = prio
  · rw [hclass, hmem]
    exact (and_iff_right rfl).symm
  · refine iff_of_false (fun hk => ?_) fun h => hclass h.1
    obtain ⟨i, hi⟩ := hkeys _ hk
    have hparity := ((key_eq_iff _ _ _ _).mp hi).2
    have hlt := prioId_frameSub_lt m p
    omega

end Histories

/-- The body of a command with the ids of a subscription. -/
def subBody (code chip func port : ℕ) : List UInt8 :=
  le16 code ++ [0, 0, 0, 0, 0, 0] ++ le16 chip ++ le16 func ++ le16 port

/-- The only client of a server with a card in slot five. -/
def onlyClient : Conn Ctx where
  proto :=
    { me := 0
      host := { env := Env.reliable, cards := fun slot => decide (slot = 5),
                peers := [{ id := 0, addr := 1, port := 1 }] } }

theorem isClient_onlyClient : IsClient onlyClient.proto 0 :=
  ⟨List.nodup_singleton 0, { id := 0, addr := 1, port := 1 }, rfl, rfl⟩

/-- A subscription to function one gets the frames of function 257. -/
theorem clientHashDoForEachKey_function_257 :
    clientHashDoForEachKey (runCmds onlyClient [(14, subBody 3 0x502 1 0)]).proto
      (frameSub (Mem.ofList (headerBytes 1 24 0x502 257 0)) 0).hashId = true := by
  refine (clientHashDoForEachKey_iff (.inl rfl) isClient_onlyClient rfl ?_ _ _).1.mpr ⟨rfl, ?_⟩
  · exact List.forall_mem_singleton.mpr (.inr (.inl (by decide)))
  · have hroom : HasRoomAfter onlyClient [] := by
      change 0 < MAX_RANDOM_ENTRIES
      decide
    exact ⟨[], (14, subBody 3 0x502 1 0), [], rfl, by decide, by decide, hroom, by decide,
      fun y hy => absurd hy List.not_mem_nil⟩

/-- Which is not what it has subscribed to. -/
theorem not_subscribed_function_257 :
    ¬ (clientHashDoForEachKey (runCmds onlyClient [(14, subBody 3 0x502 1 0)]).proto
        (frameSub (Mem.ofList (headerBytes 1 24 0x502 257 0)) 0).hashId = true ↔
      ((frameSub (Mem.ofList (headerBytes 1 24 0x502 257 0)) 0).prioId : ℤ) = 0 ∧
        Subscribed id (fun _ => True) (ioXdmaIsValidChipid onlyClient.proto.host)
          [(14, subBody 3 0x502 1 0)]
          (frameSub (Mem.ofList (headerBytes 1 24 0x502 257 0)) 0).subId) := by
  intro h
  have hfound : clientHashDoForEachKey (runCmds onlyClient [(14, subBody 3 0x502 1 0)]).proto
      (frameSub (Mem.ofList (headerBytes 1 24 0x502 257 0)) 0).hashId = true := by
    decide +kernel
  obtain ⟨-, pre, x, post, heq, -, -, -, hid, -⟩ := h.mp hfound
  have hx : x ∈ [(14, subBody 3 0x502 1 0)] := by
    rw [heq]
    exact List.mem_append_right _ List.mem_cons_self
  rw [List.mem_singleton.mp hx] at hid
  exact absurd hid (by decide)

end M57Card.Uplink
