import M57Card.Protocol.Host

/-!
# Registration and subscription commands

REGISTER sets the priority of a client; DATA_SUB and DATA_UNSUB enter and remove a key in the
subscription table of the client and of a partner, a client of the same server with the same
address and the other priority (`m57.c`, lines 1045–1156, `net_tcp.c`, lines 551–590, `net_sub.c`,
lines 48–97).

The dispatcher thread of a client, whose priority REGISTER sets too, is not part of this file.

## Main definitions

* `getHashmapId` : the key of a subscription (`bsp.h`, lines 59–63).
* `tcpFindPrioClient`, `clientHashInsert`, `clientHashDeleteItem`.
* `registerClient`, `dataSub`, `dataUnsub`.
-/

namespace M57Card.M57

open Bytes

/-- `GET_HASHMAP_ID(cid, fid, prid, port)`. -/
def getHashmapId (cid fid : ℕ) (prid : ℤ) (port : ℕ) : ℕ :=
  cardSlotNum cid + cardChipNum cid * 2 ^ 3 + fid % 2 ^ 8 * 2 ^ 5 +
    (prid % 2).toNat * 2 ^ 13 + port % 2 ^ 2 * 2 ^ 14

/-- `MAX_RANDOM_ENTRIES`. -/
def MAX_RANDOM_ENTRIES : ℕ := 8192

/-- `_is_idata_in_range`. -/
def isIdataInRange (indata dstdata range : ℤ) : Bool :=
  decide (indata - range ≤ dstdata ∧ dstdata ≤ indata + range)

/-- `tcp_find_prio_client`: a client of the same address and of priority `prio`, by preference
one whose port differs by at most one. -/
def tcpFindPrioClient (peers : List Peer) (me : Peer) (prio : ℤ) : Option Peer :=
  (peers.find? fun p => p.addr == me.addr && p.prio == prio && isIdataInRange p.port me.port 1) <|>
    peers.find? fun p => p.addr == me.addr && p.prio == prio

/-- Change the entry of a client in the list of the server. -/
def Host.onPeer (id : ℕ) (f : Peer → Peer) (h : Host) : Host :=
  { h with peers := h.peers.map fun p => if p.id = id then f p else p }

/-- `client_hash_insert`: a key that is present, or that finds the table full, is not entered. -/
def clientHashInsert (key : ℕ) (p : Peer) : Peer :=
  if MAX_RANDOM_ENTRIES ≤ p.hash.length ∨ key ∈ p.hash then p
  else { p with hash := p.hash ++ [key] }

/-- `client_hash_delete_item`. -/
def clientHashDeleteItem (key : ℕ) (p : Peer) : Peer :=
  { p with hash := p.hash.filter fun k => decide (k ≠ key) }

/-- The REGISTER command; type `1` is the low priority. -/
def registerClient (body : List UInt8) (c : Ctx) : Ctx :=
  let prio : ℤ := if byteAt body 8 = 1 then 0 else 1
  ((c.onHost (Host.onPeer c.me fun p => { p with prio := prio })).emit (.xdmaEnable 0)).emit
    (.xdmaEnable 1)

/-- The common part of DATA_SUB and DATA_UNSUB: `f` is applied, with the key of its priority, to
the table of the client and then to the table of its partner. -/
def onSubscription (f : ℕ → Peer → Peer) (body : List UInt8) (c : Ctx) : Ctx :=
  let key (p : Peer) : ℕ := getHashmapId (u16 body 8) (u16 body 10) p.prio (u16 body 12)
  let update (id : ℕ) : Ctx → Ctx := Ctx.onHost (Host.onPeer id fun p => f (key p) p)
  match c.host.peers.find? fun p => p.id == c.me with
  | none => c
  | some me =>
      match tcpFindPrioClient c.host.peers me (if me.prio = 0 then 1 else 0) with
      | none => update c.me c
      | some partner => update partner.id (update c.me c)

/-- The DATA_SUB command; an invalid chip id is ignored. -/
def dataSub (body : List UInt8) (c : Ctx) : Ctx :=
  if ioXdmaIsValidChipid c.host (u16 body 8) then onSubscription clientHashInsert body c else c

/-- The DATA_UNSUB command. -/
def dataUnsub (body : List UInt8) (c : Ctx) : Ctx :=
  onSubscription clientHashDeleteItem body c

/-- Subscriptions change the tables of the clients only. -/
theorem onSubscription_eq (f : ℕ → Peer → Peer) (body : List UInt8) (c : Ctx) :
    ∃ peers, onSubscription f body c = c.onHost fun h => { h with peers := peers } := by
  unfold onSubscription
  dsimp only
  split
  · exact ⟨c.host.peers, rfl⟩
  · split
    · exact ⟨_, rfl⟩
    · exact ⟨_, rfl⟩

theorem dataSub_eq (body : List UInt8) (c : Ctx) :
    ∃ peers, dataSub body c = c.onHost fun h => { h with peers := peers } := by
  unfold dataSub
  split_ifs
  · exact onSubscription_eq _ body c
  · exact ⟨c.host.peers, rfl⟩

end M57Card.M57
