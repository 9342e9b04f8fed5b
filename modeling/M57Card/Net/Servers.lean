import Mathlib.Data.List.Induction
import Mathlib.Data.List.Flatten
import Mathlib.Data.List.Perm.Basic
import Mathlib.Data.Nat.Find
import Mathlib.Algebra.Order.Group.Nat
import Mathlib.Algebra.Ring.Nat
import Mathlib.Order.Nat

/-!
# The command servers and the loops over their clients

`server_init` opens a command server for every configured interface that has an address (`net.c`,
lines 201–237). The server of interface `i` is stored in `cmd[i]`, and `number` counts the servers.
The loops over all clients run over the slots `0 … number - 1`: `tcp_active_send_all_client` and
`tcp_client_do_for_each` return at a slot without server (`net_tcp.c`, lines 529–549 and 627–669),
`get_cmd_server_clients` skips it (`net.c`, lines 74–95).

The structure declares two slots; the slots of the later interfaces lie in the memory of `data`,
which this build does not write, and are read from there.

With `PRIO_CHANNEL_EN`, `tcp_client_do_for_each` visits the clients of one priority, and no client
when the priority is negative; without it every client is visited.

## Main definitions

* `serverInit`, `tcpActiveSendAllClient`, `tcpClientDoForEach`, `getCmdServerClients`.
* `NetServer.withClients` : the servers with clients connected.
* `NetServer.ReachesAll` : the three loops reach all clients.

## Main results

* `isSome_cmd_serverInit`, `number_serverInit` : which servers are created, and their number.
* `reachesAll_iff` : the loops reach all clients exactly when no interface in front of a server with
  clients is without address.
-/

namespace M57Card.Net

/-- A client, as the loops see it: the address of its structure and its priority. -/
structure ServedClient where
  ptr : ℕ
  prio : ℤ
  deriving DecidableEq

/-- `struct net_tcp_server`: its list of clients and their number. -/
structure CmdServer where
  clients : List ServedClient
  nclients : ℕ
  nclients_eq : nclients = clients.length

/-- The server with the given clients. -/
def CmdServer.ofClients (clients : List ServedClient) : CmdServer := ⟨clients, clients.length, rfl⟩

/-- `struct network_st`, as far as the command server needs it. -/
structure Network where
  ifname : Option String
  port : ℕ
  deriving DecidableEq

/-- `struct net_server`. -/
structure NetServer where
  number : ℕ := 0
  cmd : ℕ → Option CmdServer := fun _ => none

/-- The answers of the operating system while the servers are created. -/
structure ListenEnv where
  /-- `get_ipaddress`: the address of an interface, `none` when it has none -/
  getIpaddress : String → Option ℕ
  /-- `tcp_server_new` can listen on address and port -/
  tcpServerNew : ℕ → ℕ → Bool

/-- The address of a configured interface. -/
def Network.address (env : ListenEnv) (n : Network) : Option ℕ := n.ifname.bind env.getIpaddress

/-- The loop of `server_init` from interface `i` on. The data servers of this build open no socket
and do not fail. -/
def serverInitLoop (env : ListenEnv) : ℕ → List Network → NetServer → ℤ × NetServer
  | _, [], s => (0, s)
  | i, n :: ns, s =>
      match n.address env with
      | none => serverInitLoop env (i + 1) ns s
      | some ip =>
          if env.tcpServerNew ip n.port then
            serverInitLoop env (i + 1) ns
              { number := s.number + 1
                cmd := Function.update s.cmd i (some (CmdServer.ofClients [])) }
          else
            (-1, s)

/-- `server_init`, up to the HTTP server. -/
def serverInit (env : ListenEnv) (network : List Network) : ℤ × NetServer :=
  serverInitLoop env 0 network {}

namespace NetServer

/-- The servers with the clients `clients i` connected to server `i`. -/
def withClients (clients : ℕ → List ServedClient) (s : NetServer) : NetServer :=
  { s with cmd := fun i => (s.cmd i).map fun _ => CmdServer.ofClients (clients i) }

/-- The clients of the server in a slot. -/
def clientsAt (s : NetServer) (i : ℕ) : List ServedClient :=
  (s.cmd i).elim [] CmdServer.clients

/-- The clients of the servers in the first `n` slots. -/
def allClients (s : NetServer) (n : ℕ) : List ServedClient := (List.range n).flatMap s.clientsAt

end NetServer

/-- A loop over slots that returns at a slot without server: the clients it visits, when `visit` has
those of one server. -/
def visitUntilNull (visit : CmdServer → List ServedClient) (s : NetServer) :
    List ℕ → List ServedClient
  | [] => []
  | i :: is =>
      match s.cmd i with
      | none => []
      | some srv => visit srv ++ visitUntilNull visit s is

/-- `tcp_active_send_all_client`: the clients that the data is sent to. -/
def tcpActiveSendAllClient (s : NetServer) : List ServedClient :=
  visitUntilNull CmdServer.clients s (List.range s.number)

/-- `tcp_client_do_for_each`: the number of clients for which `f` returned `0`, and the clients that
`f` was called for. The list of a server is walked backwards. -/
def tcpClientDoForEach (prioChannelEn : Bool) (f : ServedClient → ℤ) (prio : ℤ) (s : NetServer) :
    ℕ × List ServedClient :=
  let visited := visitUntilNull
    (fun srv => srv.clients.reverse.filter fun cl =>
      !prioChannelEn || (decide (0 ≤ prio) && decide (prio = cl.prio)))
    s (List.range s.number)
  (visited.countP fun cl => decide (f cl = 0), visited)

/-- `get_cmd_server_clients`. -/
def getCmdServerClients (s : NetServer) : ℕ :=
  ((List.range s.number).map fun i => (s.cmd i).elim 0 CmdServer.nclients).sum

/-- The loops reach every client of the servers in the first `n` slots once, and their number is
found. -/
structure NetServer.ReachesAll (s : NetServer) (n : ℕ) (prioChannelEn : Bool)
    (f : ServedClient → ℤ) (prio : ℤ) : Prop where
  doForEach : (tcpClientDoForEach prioChannelEn f prio s).2.Perm (s.allClients n)
  sendAll : (tcpActiveSendAllClient s).Perm (s.allClients n)
  count : getCmdServerClients s = (s.allClients n).length

/-- Interface `i` of the configuration has an address. -/
def HasAddress (env : ListenEnv) (network : List Network) (i : ℕ) : Prop :=
  ∃ n, network[i]? = some n ∧ (n.address env).isSome = true

/-! ### The servers that are created -/

variable (env : ListenEnv)

/-- One turn of the loop of `server_init`: the interface has no address, or its server is created,
or the server cannot listen and the loop ends. -/
theorem serverInitLoop_cons_cases (n : Network) (ns : List Network) (i : ℕ) (s : NetServer) :
    (n.address env = none ∧
        serverInitLoop env i (n :: ns) s = serverInitLoop env (i + 1) ns s) ∨
      ((n.address env).isSome = true ∧
        serverInitLoop env i (n :: ns) s = serverInitLoop env (i + 1) ns
          { number := s.number + 1
            cmd := Function.update s.cmd i (some (CmdServer.ofClients [])) }) ∨
      serverInitLoop env i (n :: ns) s = (-1, s) := by
  rw [serverInitLoop]
  split
  next haddr => exact Or.inl ⟨haddr, rfl⟩
  next ip haddr =>
    split_ifs
    · exact Or.inr (Or.inl ⟨by rw [haddr]; rfl, rfl⟩)
    · exact Or.inr (Or.inr rfl)

/-- The loop of `server_init` leaves the slots before and behind its interfaces alone. -/
theorem cmd_serverInitLoop_of_notMem (ns : List Network) (i j : ℕ) (s : NetServer)
    (hj : j < i ∨ i + ns.length ≤ j) : (serverInitLoop env i ns s).2.cmd j = s.cmd j := by
  induction ns generalizing i s with
  | nil => rfl
  | cons n ns ih =>
    rw [List.length_cons] at hj
    obtain ⟨-, heq⟩ | ⟨-, heq⟩ | heq := serverInitLoop_cons_cases env n ns i s
    · rw [heq, ih (i + 1) s (by omega)]
    · rw [heq, ih (i + 1) _ (by omega)]
      exact Function.update_of_ne (by omega) _ _
    · rw [heq]

/-- The slot of an interface after its own turn. -/
theorem cmd_serverInitLoop_self (ns : List Network) (i : ℕ) (s : NetServer) :
    (serverInitLoop env (i + 1) ns s).2.cmd i = s.cmd i :=
  cmd_serverInitLoop_of_notMem env ns (i + 1) i s (Or.inl (Nat.lt_succ_self i))

theorem hasAddress_cons_zero (n : Network) (ns : List Network) :
    HasAddress env (n :: ns) 0 ↔ (n.address env).isSome = true := by
  simp [HasAddress]

theorem hasAddress_cons_succ (n : Network) (ns : List Network) (i : ℕ) :
    HasAddress env (n :: ns) (i + 1) ↔ HasAddress env ns i := by
  simp [HasAddress]

/-- In front of a created server, the servers are those of the interfaces with an address. -/
theorem isSome_cmd_serverInitLoop (ns : List Network) (i a b : ℕ) (s : NetServer)
    (hs : ∀ j, i ≤ j → s.cmd j = none) (hab : a ≤ b)
    (hb : ((serverInitLoop env i ns s).2.cmd (i + b)).isSome = true) :
    ((serverInitLoop env i ns s).2.cmd (i + a)).isSome = true ↔ HasAddress env ns a := by
  induction ns generalizing i a b s with
  | nil =>
    rw [serverInitLoop, hs _ (by omega)] at hb
    exact absurd hb (by simp)
  | cons n ns ih =>
    have hlater (s' : NetServer) (hs' : ∀ j, i + 1 ≤ j → s'.cmd j = none) (a' : ℕ)
        (ha : a' + 1 ≤ b)
        (hb' : ((serverInitLoop env (i + 1) ns s').2.cmd (i + b)).isSome = true) :
        ((serverInitLoop env (i + 1) ns s').2.cmd (i + (a' + 1))).isSome = true ↔
          HasAddress env (n :: ns) (a' + 1) := by
      have hb1 : i + b = i + 1 + (b - 1) := by omega
      have ha1 : i + (a' + 1) = i + 1 + a' := by omega
      rw [hb1] at hb'
      rw [ha1, ih (i + 1) a' (b - 1) s' hs' (by omega) hb', hasAddress_cons_succ]
    obtain ⟨haddr, heq⟩ | ⟨haddr, heq⟩ | heq := serverInitLoop_cons_cases env n ns i s
    · rw [heq] at hb ⊢
      cases a with
      | zero =>
        rw [Nat.add_zero i, cmd_serverInitLoop_self, hs i le_rfl, hasAddress_cons_zero, haddr]
        simp
      | succ a' => exact hlater s (fun j hj => hs j (by omega)) a' hab hb
    · rw [heq] at hb ⊢
      cases a with
      | zero =>
        rw [Nat.add_zero i, cmd_serverInitLoop_self, hasAddress_cons_zero, haddr]
        simp
      | succ a' =>
        refine hlater _ (fun j hj => ?_) a' hab hb
        exact (Function.update_of_ne (by omega) _ _).trans (hs j (by omega))
    · rw [heq, hs _ (by omega)] at hb
      exact absurd hb (by simp)

/-- The number of servers is the number of occupied slots. -/
theorem number_serverInitLoop (ns : List Network) (i : ℕ) (s : NetServer)
    (hs : ∀ j, i ≤ j → s.cmd j = none) :
    (serverInitLoop env i ns s).2.number = s.number +
      (List.range' i ns.length).countP fun j => ((serverInitLoop env i ns s).2.cmd j).isSome := by
  induction ns generalizing i s with
  | nil => simp [serverInitLoop]
  | cons n ns ih =>
    rw [List.length_cons, List.range'_succ]
    obtain ⟨-, heq⟩ | ⟨-, heq⟩ | heq := serverInitLoop_cons_cases env n ns i s
    · rw [heq, List.countP_cons, cmd_serverInitLoop_self, hs i le_rfl,
        ih (i + 1) s fun j hj => hs j (by omega)]
      simp
    · rw [heq, List.countP_cons, cmd_serverInitLoop_self, ih (i + 1) _ fun j hj =>
        (Function.update_of_ne (by omega) _ _).trans (hs j (by omega))]
      simp only [Function.update_self, Option.isSome_some, if_true]
      omega
    · have hnone : (i :: List.range' (i + 1) ns.length).countP
          (fun j => (s.cmd j).isSome) = 0 := by
        rw [← List.range'_succ, List.countP_eq_zero]
        intro j hj
        rw [hs j (List.mem_range'_1.mp hj).1]
        simp
      rw [heq, hnone, Nat.add_zero]

/-! ### The loops over the clients -/

section Loops

variable {s : NetServer} {n m : ℕ}

theorem range_eq_append (hm : m ≤ n) :
    List.range n = List.range m ++ List.range' m (n - m) := by
  have h := @List.range'_append_1 0 m (n - m)
  rw [Nat.zero_add, Nat.add_sub_cancel' hm] at h
  rw [List.range_eq_range', List.range_eq_range', h]

/-- A loop that returns at an empty slot visits the servers in front of it. -/
theorem visitUntilNull_range (visit : CmdServer → List ServedClient)
    (hfull : ∀ i < m, (s.cmd i).isSome = true) (hgap : s.cmd m = none) (k : ℕ) (hk : m ≤ k) :
    visitUntilNull visit s (List.range k) =
      (List.range m).flatMap fun i => (s.cmd i).elim [] visit := by
  have happ (is js : List ℕ) (his : ∀ i ∈ is, (s.cmd i).isSome = true) :
      visitUntilNull visit s (is ++ js) =
        (is.flatMap fun i => (s.cmd i).elim [] visit) ++ visitUntilNull visit s js := by
    induction is with
    | nil => rfl
    | cons i is ih =>
      obtain ⟨srv, hsrv⟩ := Option.isSome_iff_exists.mp (his i List.mem_cons_self)
      rw [List.cons_append, visitUntilNull, hsrv, ih fun j hj => his j (List.mem_cons_of_mem _ hj)]
      simp [hsrv]
  rw [range_eq_append hk, happ _ _ fun i hi => hfull i (List.mem_range.mp hi)]
  cases hrest : k - m with
  | zero => simp [visitUntilNull]
  | succ r => simp [List.range'_succ, visitUntilNull, hgap]

/-- The clients behind the first `m` slots. -/
theorem allClients_eq_append (hm : m ≤ n) :
    s.allClients n = s.allClients m ++ (List.range' m (n - m)).flatMap s.clientsAt := by
  unfold NetServer.allClients
  rw [← List.flatMap_append, ← range_eq_append hm]

theorem allClients_eq_of_empty (hm : m ≤ n) (hrest : ∀ i, m ≤ i → s.clientsAt i = []) :
    s.allClients n = s.allClients m := by
  rw [allClients_eq_append hm, List.flatMap_eq_nil_iff.mpr, List.append_nil]
  intro i hi
  exact hrest i (List.mem_range'_1.mp hi).1

theorem getCmdServerClients_eq (s : NetServer) :
    getCmdServerClients s = (s.allClients s.number).length := by
  unfold getCmdServerClients NetServer.allClients NetServer.clientsAt
  rw [List.length_flatMap]
  congr 1
  refine List.map_congr_left fun i _ => ?_
  cases s.cmd i with
  | none => rfl
  | some srv => exact srv.nclients_eq

/-- The clients in front of slot `m` are all when no slot from there on has any. -/
theorem allClients_perm_iff (hm : m ≤ n) (hend : ∀ i, n ≤ i → s.clientsAt i = []) :
    (s.allClients m).Perm (s.allClients n) ↔ ∀ i, m ≤ i → s.clientsAt i = [] := by
  refine ⟨fun hperm i hi => ?_, fun hrest => by rw [allClients_eq_of_empty hm hrest]⟩
  have hlen := hperm.length_eq
  rw [allClients_eq_append hm, List.length_append, Nat.left_eq_add, List.length_eq_zero_iff,
    List.flatMap_eq_nil_iff] at hlen
  by_cases hin : i < n
  · exact hlen i (List.mem_range'_1.mpr ⟨hi, by omega⟩)
  · exact hend i (not_lt.mp hin)

section Gap

variable (hfull : ∀ i < m, (s.cmd i).isSome = true) (hgap : s.cmd m = none) (hnumber : m ≤ s.number)
  (f : ServedClient → ℤ) {prio : ℤ}

include hfull hgap hnumber

theorem tcpActiveSendAllClient_of_gap : tcpActiveSendAllClient s = s.allClients m :=
  visitUntilNull_range CmdServer.clients hfull hgap s.number hnumber

/-- Without priority channels every client of a server is visited. -/
theorem tcpClientDoForEach_perm :
    (tcpClientDoForEach false f prio s).2.Perm (s.allClients m) := by
  rw [tcpClientDoForEach, visitUntilNull_range _ hfull hgap s.number hnumber]
  refine List.Perm.flatMap_left _ fun i _ => ?_
  unfold NetServer.clientsAt
  cases s.cmd i with
  | none => exact List.Perm.refl _
  | some srv => simp

/-- With priority channels a negative priority selects no client. -/
theorem tcpClientDoForEach_eq_nil (hneg : prio < 0) :
    (tcpClientDoForEach true f prio s).2 = [] := by
  rw [tcpClientDoForEach, visitUntilNull_range _ hfull hgap s.number hnumber,
    List.flatMap_eq_nil_iff]
  intro i _
  cases s.cmd i with
  | none => rfl
  | some srv =>
    refine List.filter_eq_nil_iff.mpr fun cl _ => ?_
    simp [not_le.mpr hneg]

/-- When the first empty slot is `m`, and at least `m` slots are looked at, the loops reach all
clients exactly when the servers behind `m` have none. -/
theorem reachesAll_iff_of_gap {en : Bool} (hn : s.number ≤ n)
    (hend : ∀ i, n ≤ i → s.clientsAt i = []) (hunfiltered : en = false ∨ prio < 0) :
    s.ReachesAll n en f prio ↔
      (∀ i, m ≤ i → s.clientsAt i = []) ∧ (en = true → s.allClients n = []) := by
  have hsend := tcpActiveSendAllClient_of_gap hfull hgap hnumber
  have hrest_iff := allClients_perm_iff (hnumber.trans hn) hend
  have hcount (hrest : ∀ i, m ≤ i → s.clientsAt i = []) :
      getCmdServerClients s = (s.allClients n).length := by
    rw [getCmdServerClients_eq, ← allClients_eq_of_empty hn fun i hi => hrest i (by omega)]
  cases en with
  | false =>
    constructor
    · intro h
      have hperm := h.sendAll
      rw [hsend] at hperm
      exact ⟨hrest_iff.mp hperm, fun h => absurd h Bool.false_ne_true⟩
    · rintro ⟨hrest, -⟩
      have hall := hrest_iff.mpr hrest
      exact ⟨(tcpClientDoForEach_perm hfull hgap hnumber f).trans hall, by rwa [hsend],
        hcount hrest⟩
  | true =>
    have hneg : prio < 0 := hunfiltered.resolve_left (by simp)
    have hnone := tcpClientDoForEach_eq_nil hfull hgap hnumber f hneg
    constructor
    · intro h
      have hperm := h.sendAll
      have heach := h.doForEach
      rw [hsend] at hperm
      rw [hnone] at heach
      exact ⟨hrest_iff.mp hperm, fun _ => List.nil_perm.mp heach⟩
    · rintro ⟨hrest, hempty⟩
      have hall := hrest_iff.mpr hrest
      exact ⟨by rw [hnone, hempty rfl], by rwa [hsend], hcount hrest⟩

end Gap

end Loops

/-! ### The servers of `server_init` -/

section ServerInit

variable (network : List Network)

theorem cmd_serverInit_of_le {i : ℕ} (hi : network.length ≤ i) :
    (serverInit env network).2.cmd i = none :=
  cmd_serverInitLoop_of_notMem env network 0 i {} (Or.inr (by omega))

/-- In front of a created server, the servers are those of the interfaces with an address. -/
theorem isSome_cmd_serverInit {i j : ℕ} (hj : j ≤ i)
    (hi : ((serverInit env network).2.cmd i).isSome = true) :
    ((serverInit env network).2.cmd j).isSome = true ↔ HasAddress env network j := by
  have h := isSome_cmd_serverInitLoop env network 0 j i {} (fun _ _ => rfl) hj
  simp only [Nat.zero_add] at h
  exact h hi

/-- The number of servers. -/
theorem number_serverInit : (serverInit env network).2.number =
    (List.range network.length).countP fun j => ((serverInit env network).2.cmd j).isSome := by
  have h := number_serverInitLoop env network 0 {} fun _ _ => rfl
  rw [← List.range_eq_range', Nat.zero_add] at h
  exact h

theorem number_serverInit_le : (serverInit env network).2.number ≤ network.length := by
  rw [number_serverInit]
  exact List.countP_le_length.trans_eq List.length_range

/-- The first slot without server; the loops look at least as far. -/
theorem exists_gap : ∃ m, (serverInit env network).2.cmd m = none ∧
    (∀ i < m, ((serverInit env network).2.cmd i).isSome = true) ∧
    m ≤ (serverInit env network).2.number := by
  have hend := cmd_serverInit_of_le env network le_rfl
  have hex : ∃ m, (serverInit env network).2.cmd m = none := ⟨network.length, hend⟩
  have hfull (i : ℕ) (hi : i < Nat.find hex) :
      ((serverInit env network).2.cmd i).isSome = true :=
    Option.isSome_iff_ne_none.mpr (Nat.find_min hex hi)
  refine ⟨Nat.find hex, Nat.find_spec hex, hfull, ?_⟩
  have hall : (List.range (Nat.find hex)).countP
      (fun j => ((serverInit env network).2.cmd j).isSome) = Nat.find hex := by
    rw [List.countP_eq_length.mpr fun i hi => hfull i (List.mem_range.mp hi), List.length_range]
  rw [number_serverInit, range_eq_append (Nat.find_min' hex hend), List.countP_append]
  omega

theorem clientsAt_withClients (s : NetServer) (clients : ℕ → List ServedClient) (i : ℕ) :
    (s.withClients clients).clientsAt i = if (s.cmd i).isSome = true then clients i else [] := by
  dsimp only [NetServer.clientsAt, NetServer.withClients]
  cases s.cmd i with
  | none => rfl
  | some srv => rfl

/-- The loops reach every client of every created server exactly when all interfaces in front of a
server with clients have an address, and, in a build with `PRIO_CHANNEL_EN`, there is no client: a
call without priority then visits nobody. -/
theorem reachesAll_iff (clients : ℕ → List ServedClient) (en : Bool) (f : ServedClient → ℤ)
    (prio : ℤ) (hunfiltered : en = false ∨ prio < 0) :
    ((serverInit env network).2.withClients clients).ReachesAll network.length en f prio ↔
      (∀ i, ((serverInit env network).2.cmd i).isSome = true → clients i ≠ [] →
        ∀ j < i, HasAddress env network j) ∧
      (en = true → ∀ i, ((serverInit env network).2.cmd i).isSome = true → clients i = []) := by
  obtain ⟨m, hgap, hfull, hm⟩ := exists_gap env network
  have hend {i : ℕ} (hi : network.length ≤ i) := cmd_serverInit_of_le env network hi
  have hcreated {i j : ℕ} := isSome_cmd_serverInit env network (i := i) (j := j)
  have hn := number_serverInit_le env network
  generalize (serverInit env network).2 = s at hgap hfull hm hend hcreated hn ⊢
  have hlt {i : ℕ} (hi : (s.cmd i).isSome = true) : i < network.length := by
    by_contra hge
    rw [hend (not_lt.mp hge)] at hi
    exact Bool.noConfusion hi
  rw [reachesAll_iff_of_gap (s := s.withClients clients) (m := m)
    (fun i hi => by simp [NetServer.withClients, hfull i hi])
    (by simp [NetServer.withClients, hgap]) hm f hn
    (fun i hi => by rw [clientsAt_withClients, hend hi]; rfl) hunfiltered]
  refine and_congr ⟨fun hrest i hi hne j hj => ?_, fun haddr i hi => ?_⟩
    (imp_congr_right fun _ => ?_)
  · have him : i < m := by
      by_contra hge
      have h := hrest i (not_lt.mp hge)
      rw [clientsAt_withClients, if_pos hi] at h
      exact hne h
    exact (hcreated hj.le hi).mp (hfull j (hj.trans him))
  · rw [clientsAt_withClients]
    split_ifs with hi'
    · by_contra hne
      have hmi : m < i := lt_of_le_of_ne hi fun heq => by
        rw [← heq, hgap] at hi'
        exact Bool.noConfusion hi'
      have hsm := (hcreated hmi.le hi').mpr (haddr i hi' hne m hmi)
      rw [hgap] at hsm
      exact Bool.noConfusion hsm
    · rfl
  · rw [NetServer.allClients, List.flatMap_eq_nil_iff]
    constructor
    · intro h i hi
      have hnil := h i (List.mem_range.mpr (hlt hi))
      rwa [clientsAt_withClients, if_pos hi] at hnil
    · intro h i _
      rw [clientsAt_withClients]
      split_ifs with hi
      · exact h i hi
      · rfl

end ServerInit

/-- Interfaces that both have an address, and every port is free. -/
def bothAddresses : ListenEnv where
  getIpaddress ifname := if ifname = "eth0" then some 0xc0a80101 else some 0xc0a80102
  tcpServerNew _ _ := true

/-- Two configured interfaces, with one client at the first and two at the second: the loops reach
them. -/
theorem reachesAll_eth0_eth1 :
    ((serverInit bothAddresses [⟨some "eth0", 6080⟩, ⟨some "eth1", 6081⟩]).2.withClients
      fun i => if i = 0 then [⟨7, 0⟩] else [⟨8, 0⟩, ⟨9, 1⟩]).ReachesAll 2 false (fun _ => 0)
      (-1) := by
  refine (reachesAll_iff bothAddresses [⟨some "eth0", 6080⟩, ⟨some "eth1", 6081⟩]
    (fun i => if i = 0 then [⟨7, 0⟩] else [⟨8, 0⟩, ⟨9, 1⟩]) false (fun _ => 0) (-1)
    (Or.inl rfl)).mpr ⟨fun i hi _ j hj => ?_, fun h => Bool.noConfusion h⟩
  have hi2 : i < 2 := by
    by_contra hge
    rw [cmd_serverInit_of_le bothAddresses _ (not_lt.mp hge)] at hi
    exact Bool.noConfusion hi
  obtain rfl : j = 0 := by omega
  exact (hasAddress_cons_zero bothAddresses _ _).mpr rfl

/-- Interfaces of which only `eth1` has an address, and every port is free. -/
def eth1Only : ListenEnv where
  getIpaddress ifname := if ifname = "eth1" then some 0xc0a80102 else none
  tcpServerNew _ _ := true

/-- A first interface without address hides the client of the second one; and a call without
priority visits nobody in a build with `PRIO_CHANNEL_EN`. -/
theorem not_reachesAll_eth1Only :
    ¬ ((serverInit eth1Only [⟨some "eth0", 6080⟩, ⟨some "eth1", 6080⟩]).2.withClients
        fun _ => [⟨7, 0⟩]).ReachesAll 2 false (fun _ => 0) (-1) ∧
      ¬ ((serverInit eth1Only [⟨some "eth1", 6080⟩]).2.withClients
        fun _ => [⟨7, 0⟩]).ReachesAll 1 true (fun _ => 0) (-1) := by
  constructor
  · intro h
    exact absurd h.count (by decide)
  · intro h
    exact absurd h.doForEach.length_eq (by decide)

end M57Card.Net
