import M57Card.Lib.Runs
import M57Card.Uplink.Subscription

/-!
# Subscriptions of a pair of sockets

A client program connects with two sockets, one of each priority, and sends its commands through
either. DATA_SUB enters the key of the subscription in the table of the client that sends it and in
that of its partner, each with the priority it has then; DATA_UNSUB searches the partner again and
deletes the keys of the priorities that the two have now (`m57.c`, lines 1088–1156, `net_tcp.c`,
lines 551–590). It undoes the DATA_SUB when the partner is still the same and no priority has
changed in between.

The file has the clients of a server as a state: they connect and disconnect, and send REGISTER,
DATA_SUB and DATA_UNSUB, in any order. The state records which clients have received an entry
through whose DATA_SUB.

## Main definitions

* `Pairs`, `PairOp`, `Pairs.step`, `Pairs.run`.
* `Pairs.Undone` : a DATA_UNSUB leaves no entry that a DATA_SUB of its client has made.
* `Pairs.UnsubStep` : the clients with such an entry are the client and its partner, and have the
  priority of the entry.

## Main results

* `mem_peers_onSubscription` : what DATA_SUB and DATA_UNSUB do to the tables of all clients.
* `undone_iff` : every DATA_UNSUB of a run undoes the earlier DATA_SUB exactly when it finds the
  clients such.
-/

namespace M57Card.Uplink

open M57 Bytes

/-- The clients of a server, and who has received an entry: through the DATA_SUB of which client,
for which subscription. -/
structure Pairs where
  host : Host
  /-- the number of clients that have connected so far -/
  next : ℕ := 0
  received : List (ℕ × SubId × ℕ) := []

/-- The steps of the clients. A command has the id of its client and its body. -/
inductive PairOp where
  | connect (addr port : ℕ)
  | disconnect (id : ℕ)
  | register (id : ℕ) (body : List UInt8)
  | dataSub (id : ℕ) (body : List UInt8)
  | dataUnsub (id : ℕ) (body : List UInt8)
  deriving DecidableEq

namespace Pairs

/-- The connection of a client with the host as it is. -/
def ctx (s : Pairs) (id : ℕ) : Ctx := { me := id, host := s.host }

/-- The clients whose table has a key that it did not have. -/
def gained (before after : List Peer) : List ℕ :=
  (after.filter fun p => p.hash.any fun k =>
    before.all fun q => decide (q.id = p.id → k ∉ q.hash)).map Peer.id

/-- One step. A new client comes to the head of the list of the server. -/
def step (s : Pairs) : PairOp → Pairs
  | .connect addr port =>
      { s with
        host := { s.host with peers := { id := s.next, addr, port } :: s.host.peers }
        next := s.next + 1 }
  | .disconnect id =>
      { s with
        host := { s.host with peers := s.host.peers.filter fun p => decide (p.id ≠ id) } }
  | .register id body => { s with host := (registerClient body (s.ctx id)).host }
  | .dataSub id body =>
      let host := (M57.dataSub body (s.ctx id)).host
      { s with
        host := host
        received := s.received ++
          (gained s.host.peers host.peers).map fun i => (id, subIdOf body, i) }
  | .dataUnsub id body => { s with host := (M57.dataUnsub body (s.ctx id)).host }

/-- The steps `ops`, one after the other, of a server without clients. -/
def run (env : Env) (cards : ℕ → Bool) (ops : List PairOp) : Pairs :=
  ops.foldl step { host := { env, cards } }

/-- After a DATA_UNSUB, no client that has received an entry through an earlier DATA_SUB of its
client, for the same subscription, has an entry for it. -/
def Undone (s : Pairs) : PairOp → Prop
  | .dataUnsub id body => (∃ me, myPeer (s.ctx id) = some me) →
      ∀ x ∈ (s.step (.dataUnsub id body)).host.peers, (id, subIdOf body, x.id) ∈ s.received →
        ∀ prio, (subIdOf body).key prio ∉ x.hash
  | _ => True

/-- The partner that DATA_SUB and DATA_UNSUB choose. -/
def partner (s : Pairs) (me : Peer) : Option Peer :=
  tcpFindPrioClient s.host.peers me (if me.prio = 0 then 1 else 0)

/-- A DATA_UNSUB finds that every client which has received an entry through a DATA_SUB of its
client for the same subscription, and has an entry for it, is the client or its present partner, and
has it for its present priority. -/
def UnsubStep (s : Pairs) : PairOp → Prop
  | .dataUnsub id body => ∀ me, myPeer (s.ctx id) = some me →
      ∀ x ∈ s.host.peers, (id, subIdOf body, x.id) ∈ s.received →
        ∀ prio, (subIdOf body).key prio ∈ x.hash →
          (x = me ∨ s.partner me = some x) ∧ prio % 2 = x.prio % 2
  | _ => True

/-! ### What the commands do to the tables -/

/-- The clients with one id. -/
theorem eq_iff_id {peers : List Peer} (hids : (peers.map Peer.id).Nodup) {p q : Peer}
    (hp : p ∈ peers) (hq : q ∈ peers) : p = q ↔ p.id = q.id :=
  ⟨congrArg Peer.id, List.inj_on_of_nodup_map hids hp hq⟩

/-- DATA_SUB and DATA_UNSUB change the entries of the client and of its partner, each by the key of
its priority. -/
theorem mem_peers_onSubscription {c : Ctx} (body : List UInt8) {f : ℕ → Peer → Peer}
    (hf : ∀ k p, (f k p).id = p.id) (hids : (c.host.peers.map Peer.id).Nodup) {me : Peer}
    (hme : myPeer c = some me) {y : Peer} :
    y ∈ (onSubscription f body c).host.peers ↔ ∃ x ∈ c.host.peers,
      ((x = me ∨ tcpFindPrioClient c.host.peers me (if me.prio = 0 then 1 else 0) = some x) ∧
          f ((subIdOf body).key x.prio) x = y) ∨
        (¬ (x = me ∨
          tcpFindPrioClient c.host.peers me (if me.prio = 0 then 1 else 0) = some x) ∧ x = y) := by
  have hfind : (c.host.peers.find? fun p => p.id == c.me) = some me := hme
  have hmem : me ∈ c.host.peers := List.mem_of_find?_eq_some hfind
  have hid : me.id = c.me := id_of_myPeer hme
  cases hpartner : tcpFindPrioClient c.host.peers me (if me.prio = 0 then 1 else 0) with
  | none =>
    simp only [onSubscription, hfind, hpartner, Ctx.onHost, Host.onPeer, List.mem_map]
    refine exists_congr fun x => and_congr_right fun hx => ?_
    have hxid : x.id = c.me ↔ x = me := by rw [← hid, eq_iff_id hids hx hmem]
    by_cases hxm : x = me
    · rw [if_pos (hxid.mpr hxm)]
      simp only [hxm, true_or, true_and, not_true_eq_false, false_and, or_false]
      rfl
    · rw [if_neg (mt hxid.mp hxm)]
      simp only [hxm, reduceCtorEq, or_self, not_false_eq_true, true_and, false_and, false_or]
  | some partner =>
    obtain ⟨hpmem, -⟩ := tcpFindPrioClient_eq_some hpartner
    have hne := partner_ne hpartner
    simp only [onSubscription, hfind, hpartner, Ctx.onHost, Host.onPeer, List.map_map,
      List.mem_map, Function.comp_apply]
    refine exists_congr fun x => and_congr_right fun hx => ?_
    have hxid : x.id = c.me ↔ x = me := by rw [← hid, eq_iff_id hids hx hmem]
    have hxp : x.id = partner.id ↔ partner = x := by rw [← eq_iff_id hids hx hpmem, eq_comm]
    by_cases hxm : x = me
    · have hother : (f (getHashmapId (u16 body 8) (u16 body 10) x.prio (u16 body 12)) x).id ≠
          partner.id := by
        rw [hf]
        exact fun h => hne ((hxp.mp h).trans hxm)
      rw [if_pos (hxid.mpr hxm), if_neg hother]
      simp only [hxm, true_or, true_and, not_true_eq_false, false_and, or_false]
      rfl
    · rw [if_neg (mt hxid.mp hxm)]
      by_cases hp : partner = x
      · rw [if_pos (hxp.mpr hp)]
        simp only [hp, or_true, true_and, not_true_eq_false, false_and, or_false]
        rfl
      · rw [if_neg (mt hxp.mp hp)]
        simp only [hxm, Option.some.injEq, hp, or_self, not_false_eq_true, true_and, false_and,
          false_or]

/-! ### What holds in every run -/

/-- The clients have different ids, all given out before. -/
structure Distinct (s : Pairs) : Prop where
  ids : (s.host.peers.map Peer.id).Nodup
  lt : ∀ p ∈ s.host.peers, p.id < s.next

theorem map_id_onSubscription {c : Ctx} (body : List UInt8) {f : ℕ → Peer → Peer}
    (hf : ∀ k p, (f k p).id = p.id) :
    (onSubscription f body c).host.peers.map Peer.id = c.host.peers.map Peer.id := by
  unfold onSubscription
  dsimp only
  split
  · rfl
  · split
    · exact map_id_onPeer _ fun p => hf _ p
    · rw [map_id_onPeer _ fun p => hf _ p, map_id_onPeer _ fun p => hf _ p]

/-- A step that leaves the ids of the clients. -/
theorem Distinct.of_ids {s s' : Pairs} (hs : s.Distinct)
    (hids : s'.host.peers.map Peer.id = s.host.peers.map Peer.id) (hnext : s'.next = s.next) :
    s'.Distinct := by
  refine ⟨by rw [hids]; exact hs.ids, fun p hp => ?_⟩
  have hmem : p.id ∈ s.host.peers.map Peer.id := by
    rw [← hids]
    exact List.mem_map_of_mem hp
  obtain ⟨q, hq, hqp⟩ := List.mem_map.mp hmem
  rw [hnext, ← hqp]
  exact hs.lt q hq

theorem Distinct.step {s : Pairs} (hs : s.Distinct) (op : PairOp) : (s.step op).Distinct := by
  cases op with
  | connect addr port =>
    refine ⟨?_, fun p hp => ?_⟩
    · refine List.nodup_cons.mpr ⟨fun hmem => ?_, hs.ids⟩
      obtain ⟨q, hq, hqid⟩ := List.mem_map.mp hmem
      exact (hs.lt q hq).ne hqid
    · rcases List.mem_cons.mp hp with rfl | hp
      · exact Nat.lt_succ_self _
      · exact Nat.lt_succ_of_lt (hs.lt p hp)
  | disconnect id =>
    exact ⟨hs.ids.sublist (List.filter_sublist.map _),
      fun p hp => hs.lt p (List.mem_of_mem_filter hp)⟩
  | register id body => exact hs.of_ids (map_id_onPeer _ fun _ => rfl) rfl
  | dataSub id body =>
    refine hs.of_ids ?_ rfl
    dsimp only [Pairs.step, M57.dataSub]
    split_ifs
    · exact map_id_onSubscription body id_clientHashInsert
    · rfl
  | dataUnsub id body => exact hs.of_ids (map_id_onSubscription body fun _ _ => rfl) rfl

/-! ### Runs -/

/-- A DATA_UNSUB undoes the earlier DATA_SUB exactly when the clients with an entry are the client
and its partner, and have it for their present priority. -/
theorem undone_step_iff {s : Pairs} (hs : s.Distinct) (op : PairOp) :
    s.Undone op ↔ s.UnsubStep op := by
  cases op with
  | dataUnsub id body =>
    dsimp only [Undone, UnsubStep]
    rw [forall_exists_index]
    refine forall₂_congr fun me hme => ?_
    have hmem (y : Peer) := mem_peers_onSubscription (c := s.ctx id) body
      (f := clientHashDeleteItem) (fun _ _ => rfl) hs.ids hme (y := y)
    constructor
    · intro hgone x hx hrec prio hprio
      by_cases htouched : x = me ∨ s.partner me = some x
      · refine ⟨htouched, ?_⟩
        by_contra hne
        refine hgone (clientHashDeleteItem ((subIdOf body).key x.prio) x)
          ((hmem _).mpr ⟨x, hx, Or.inl ⟨htouched, rfl⟩⟩) hrec prio ?_
        refine mem_hash_clientHashDeleteItem.mpr ⟨hprio, fun hkey => hne ?_⟩
        exact ((key_eq_iff _ _ _ _).mp hkey).2
      · exact absurd hprio (hgone x ((hmem x).mpr ⟨x, hx, Or.inr ⟨htouched, rfl⟩⟩) hrec prio)
    · intro hfound y hy hrec prio hprio
      obtain ⟨x, hx, ⟨-, rfl⟩ | ⟨hnot, rfl⟩⟩ := (hmem y).mp hy
      · obtain ⟨hold, hne⟩ := mem_hash_clientHashDeleteItem.mp hprio
        exact hne ((key_eq_iff _ _ _ _).mpr ⟨rfl, (hfound x hx hrec prio hold).2⟩)
      · exact hnot (hfound x hx hrec prio hprio).1
  | _ => exact Iff.rfl

/-- **A DATA_UNSUB undoes the DATA_SUB** of its client for the same subscription, along a run of
connects, disconnects and commands of all clients, exactly when each finds every client that holds
an entry made by such a DATA_SUB to be the client itself or its present partner, with the priority
of the entry. -/
theorem undone_iff (env : Env) (cards : ℕ → Bool) (ops : List PairOp) :
    (∀ pre op, pre ++ [op] <+: ops → (run env cards pre).Undone op) ↔
      ∀ pre op, pre ++ [op] <+: ops → (run env cards pre).UnsubStep op := by
  have hstart : Distinct { host := { env, cards } } :=
    ⟨List.nodup_nil, fun _ hp => absurd hp List.not_mem_nil⟩
  exact forall_steps_iff hstart (fun _ op hs _ => hs.step op) (fun _ op hs => undone_step_iff hs op)
    ops

/-- A client subscribes with priority zero, registers with priority one, and unsubscribes: the entry
of priority zero stays. -/
theorem not_undone_register :
    ¬ (run Env.reliable (fun _ => true)
      [.connect 1 10, .dataSub 0 [0, 0, 0, 0, 0, 0, 0, 0, 2, 5, 0, 0, 0, 0],
        .register 0 [0, 0, 0, 0, 0, 0, 0, 0, 2]]).Undone
      (.dataUnsub 0 [0, 0, 0, 0, 0, 0, 0, 0, 2, 5, 0, 0, 0, 0]) := by
  set s := run Env.reliable (fun _ => true)
    [.connect 1 10, .dataSub 0 [0, 0, 0, 0, 0, 0, 0, 0, 2, 5, 0, 0, 0, 0],
      .register 0 [0, 0, 0, 0, 0, 0, 0, 0, 2]]
  have hme : (myPeer (s.ctx 0)).isSome = true := by decide
  have hrec : s.received = [(0, ⟨1282, 0, 0⟩, 0)] := by decide
  have hafter : (s.step (.dataUnsub 0 [0, 0, 0, 0, 0, 0, 0, 0, 2, 5, 0, 0, 0, 0])).host.peers.map
      (fun p => (p.id, p.hash)) = [(0, [21])] := by decide
  have hmem : (0, [21]) ∈ [(0, [21])] := List.mem_singleton_self _
  rw [← hafter] at hmem
  obtain ⟨x, hx, hval⟩ := List.mem_map.mp hmem
  obtain ⟨hid, hhash⟩ := Prod.mk.inj hval
  intro hgone
  refine hgone (Option.isSome_iff_exists.mp hme) x hx ?_ 0 ?_
  · rw [hid, hrec]
    decide
  · rw [hhash]
    decide

end Pairs

end M57Card.Uplink
