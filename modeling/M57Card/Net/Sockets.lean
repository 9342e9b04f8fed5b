import M57Card.Lib.Bitmap
import M57Card.Lib.Runs
import Mathlib.Data.List.Perm.Subperm
import Mathlib.Data.List.Nodup

/-!
# Section ids of the client sockets

Every client of a command server gets a `section_id` when it is accepted, the first clear bit of
the bitmap `cl_sock_bmp` of `MAX_CLINET_SOCKET_NUM` bits, which all servers share; the bit is
cleared when the client is freed (`net_tcp.c`, lines 310–338 and 427–500, `io.c`, lines 127–156).
A client that finds no clear bit is kept: its id is the number of bits of the map, and no bit is
set for it.

The uplink dispatchers take `socket_bitmap_weight() == 0` for "no client is connected"
(`spm.c`, lines 547–568).

## Main definitions

* `tcpAcceptCb`, `tcpFree`, `SockOp`, `Sockets.run` : runs of accepts and frees.
* `Sockets.Consistent` : the bitmap agrees with the connected clients.

## Main results

* `consistent_iff_room` : the bitmap agrees with the clients along a run exactly when every accept
  of it finds room in the map.
-/

namespace M57Card.Net

open Bitmap

/-- `MAX_CLINET_SOCKET_NUM`. -/
def MAX_CLINET_SOCKET_NUM : ℕ := 32

/-- `socket_bitmap_set`. -/
def socketBitmapSet (index : ℕ) (bmp : Word) : Word := setBit index bmp

/-- `socket_bitmap_clear`. -/
def socketBitmapClear (index : ℕ) (bmp : Word) : Word := clearBit index bmp

/-- `socket_bitmap_weight`. -/
def socketBitmapWeight (bmp : Word) : ℕ := bitmapWeight bmp MAX_CLINET_SOCKET_NUM

/-- `socket_bitmap_find_index`. -/
def socketBitmapFindIndex (bmp : Word) : ℕ := findFirstZeroBit bmp MAX_CLINET_SOCKET_NUM

/-- A connected client: the address of its structure, the index of its server, its section id. -/
structure SockClient where
  ptr : ℕ
  srv : ℕ
  sectionId : ℕ
  deriving DecidableEq

/-- The bitmap `cl_sock_bmp` and the clients of all command servers, the latest first. `next` is
the address of the structure allocated next. -/
structure Sockets where
  bmp : Word := 0#64
  clients : List SockClient := []
  next : ℕ := 0

/-- `tcp_accept_cb` on the listening socket of server `srv`, when `accept` and `calloc` succeed. -/
def tcpAcceptCb (srv : ℕ) (s : Sockets) : Sockets :=
  let sectionId := socketBitmapFindIndex s.bmp
  { bmp := if MAX_CLINET_SOCKET_NUM ≤ sectionId then s.bmp else socketBitmapSet sectionId s.bmp
    clients := { ptr := s.next, srv := srv, sectionId := sectionId } :: s.clients
    next := s.next + 1 }

/-- `tcp_free` of a connected client. -/
def tcpFree (ptr : ℕ) (s : Sockets) : Sockets :=
  match s.clients.find? fun cl => cl.ptr == ptr with
  | none => s
  | some cl =>
      { s with
        bmp := socketBitmapClear cl.sectionId s.bmp
        clients := s.clients.filter fun c => decide (c.ptr ≠ ptr) }

/-- What happens to the clients of the servers. -/
inductive SockOp where
  /-- a client is accepted by server `srv` -/
  | accept (srv : ℕ)
  /-- `accept` or `calloc` fails in the callback of server `srv` -/
  | acceptFails (srv : ℕ)
  /-- the client at address `ptr` is freed -/
  | free (ptr : ℕ)
  deriving DecidableEq

/-- One operation. -/
def Sockets.step (s : Sockets) : SockOp → Sockets
  | .accept srv => tcpAcceptCb srv s
  | .acceptFails _ => s
  | .free ptr => tcpFree ptr s

/-- The operations `ops` of the servers, one after the other. -/
def Sockets.run (ops : List SockOp) : Sockets := ops.foldl Sockets.step {}

/-- The set bits are the section ids of the connected clients, no two clients share an id, and the
weight is zero when no client is connected. -/
structure Sockets.Consistent (s : Sockets) : Prop where
  bits : ∀ b, s.bmp.getLsbD b = true ↔ ∃ cl ∈ s.clients, cl.sectionId = b
  distinct : s.clients.Pairwise fun c d => c.sectionId ≠ d.sectionId
  weight : socketBitmapWeight s.bmp = 0 ↔ s.clients = []

namespace Sockets

/-! ### What holds in every run -/

/-- What holds of the map and the clients in every run, whatever number of clients there is. -/
structure WellFormed (s : Sockets) : Prop where
  high : ∀ b, MAX_CLINET_SOCKET_NUM ≤ b → s.bmp.getLsbD b = false
  bound : ∀ cl ∈ s.clients, cl.sectionId ≤ MAX_CLINET_SOCKET_NUM
  fresh : ∀ cl ∈ s.clients, cl.ptr < s.next
  ptrs : s.clients.Pairwise fun c d => c.ptr ≠ d.ptr

theorem MAX_lt : MAX_CLINET_SOCKET_NUM < 64 := by decide

theorem findIndex_le (bmp : Word) : socketBitmapFindIndex bmp ≤ MAX_CLINET_SOCKET_NUM := by
  obtain ⟨-, h | ⟨h, -⟩⟩ :=
    findFirstZeroBit_spec bmp MAX_lt.le
  · exact h.le
  · exact h.le

theorem WellFormed.accept {s : Sockets} (hs : s.WellFormed) (srv : ℕ) :
    (tcpAcceptCb srv s).WellFormed := by
  have hle := findIndex_le s.bmp
  refine ⟨fun b hb => ?_, ?_, ?_, ?_⟩
  · dsimp only [tcpAcceptCb]
    split_ifs with hfull
    · exact hs.high b hb
    · have hne : b ≠ socketBitmapFindIndex s.bmp := by omega
      have hlt : socketBitmapFindIndex s.bmp < 64 := lt_of_le_of_lt hle MAX_lt
      rw [socketBitmapSet, getLsbD_setBit hlt]
      simp [hs.high b hb, hne]
  · rintro cl (_ | ⟨_, hcl⟩)
    · exact hle
    · exact hs.bound cl hcl
  · rintro cl (_ | ⟨_, hcl⟩)
    · exact Nat.lt_succ_self _
    · exact Nat.lt_succ_of_lt (hs.fresh cl hcl)
  · exact List.pairwise_cons.mpr ⟨fun cl hcl => (hs.fresh cl hcl).ne', hs.ptrs⟩

theorem WellFormed.free {s : Sockets} (hs : s.WellFormed) (ptr : ℕ) :
    (tcpFree ptr s).WellFormed := by
  unfold tcpFree
  split
  next => exact hs
  next cl hfind =>
    have hcl := List.mem_of_find?_eq_some hfind
    refine ⟨fun b hb => ?_, fun c hc => hs.bound c (List.mem_filter.mp hc).1,
      fun c hc => hs.fresh c (List.mem_filter.mp hc).1, hs.ptrs.filter _⟩
    rw [socketBitmapClear, getLsbD_clearBit (lt_of_le_of_lt (hs.bound cl hcl) MAX_lt)]
    simp [hs.high b hb]

theorem WellFormed.step {s : Sockets} (hs : s.WellFormed) (op : SockOp) :
    (s.step op).WellFormed := by
  cases op with
  | accept srv => exact hs.accept srv
  | acceptFails srv => exact hs
  | free ptr => exact hs.free ptr

theorem wellFormed_start : WellFormed {} :=
  ⟨fun _ _ => BitVec.getLsbD_zero, fun _ h => absurd h List.not_mem_nil,
    fun _ h => absurd h List.not_mem_nil, List.Pairwise.nil⟩

/-! ### Runs with room in the map -/

/-- The map is full when the ids of the clients cover it. -/
theorem findIndex_lt_iff {s : Sockets} (hs : s.WellFormed) (hc : s.Consistent) :
    socketBitmapFindIndex s.bmp < MAX_CLINET_SOCKET_NUM ↔
      s.clients.length < MAX_CLINET_SOCKET_NUM := by
  have hnodup : (s.clients.map (·.sectionId)).Nodup := List.pairwise_map.mpr hc.distinct
  have hsub : s.clients.map (·.sectionId) ⊆ List.range MAX_CLINET_SOCKET_NUM := by
    intro b hb
    obtain ⟨cl, hcl, rfl⟩ := List.mem_map.mp hb
    by_contra hge
    have hclear := hs.high cl.sectionId (by simpa using hge)
    rw [(hc.bits cl.sectionId).mpr ⟨cl, hcl, rfl⟩] at hclear
    exact Bool.noConfusion hclear
  obtain ⟨hlow, hres⟩ := findFirstZeroBit_spec s.bmp MAX_lt.le
  constructor
  · -- the clear bit is an id that no client has
    intro hlt
    obtain hr | ⟨-, hclear⟩ := hres
    · exact absurd hr hlt.ne
    · have hnot : socketBitmapFindIndex s.bmp ∉ s.clients.map (·.sectionId) := by
        intro hmem
        obtain ⟨cl, hcl, heq⟩ := List.mem_map.mp hmem
        have hset := (hc.bits _).mpr ⟨cl, hcl, heq⟩
        rw [socketBitmapFindIndex, hclear] at hset
        exact Bool.noConfusion hset
      have hcons : (socketBitmapFindIndex s.bmp :: s.clients.map (·.sectionId)).Nodup :=
        List.nodup_cons.mpr ⟨hnot, hnodup⟩
      have hlen := (hcons.subperm (List.cons_subset.mpr
        ⟨List.mem_range.mpr hlt, hsub⟩)).length_le
      rw [List.length_cons, List.length_map, List.length_range] at hlen
      exact hlen
  · -- a full map has an id for every bit
    intro hlen
    by_contra hge
    have hcover : List.range MAX_CLINET_SOCKET_NUM ⊆ s.clients.map (·.sectionId) := by
      intro b hb
      have hb' : b < socketBitmapFindIndex s.bmp :=
        lt_of_lt_of_le (List.mem_range.mp hb) (not_lt.mp hge)
      obtain ⟨cl, hcl, heq⟩ := (hc.bits b).mp (hlow b hb')
      exact List.mem_map.mpr ⟨cl, hcl, heq⟩
    have hle := (List.nodup_range.subperm hcover).length_le
    simp at hle
    omega

/-- The weight of a map whose set bits are the ids of the clients. -/
theorem weight_iff {s : Sockets} (hs : s.WellFormed)
    (hbits : ∀ b, s.bmp.getLsbD b = true ↔ ∃ cl ∈ s.clients, cl.sectionId = b) :
    socketBitmapWeight s.bmp = 0 ↔ s.clients = [] := by
  rw [socketBitmapWeight, bitmapWeight_eq_zero_iff _ (by decide) (by decide)]
  constructor
  · intro hzero
    rw [List.eq_nil_iff_forall_not_mem]
    intro cl hcl
    have hset := (hbits cl.sectionId).mpr ⟨cl, hcl, rfl⟩
    by_cases hlt : cl.sectionId < MAX_CLINET_SOCKET_NUM
    · rw [hzero _ hlt] at hset
      exact Bool.noConfusion hset
    · rw [hs.high _ (not_lt.mp hlt)] at hset
      exact Bool.noConfusion hset
  · intro hnil b _
    rw [Bool.eq_false_iff, ne_eq, hbits b]
    simp [hnil]

theorem Consistent.accept {s : Sockets} (hc : s.Consistent) (hs : s.WellFormed) (srv : ℕ)
    (hroom : s.clients.length < MAX_CLINET_SOCKET_NUM) : (tcpAcceptCb srv s).Consistent := by
  have hlt := (findIndex_lt_iff hs hc).mpr hroom
  obtain ⟨-, hres⟩ := findFirstZeroBit_spec s.bmp MAX_lt.le
  have hclear : s.bmp.getLsbD (socketBitmapFindIndex s.bmp) = false := by
    obtain hr | ⟨-, hr⟩ := hres
    · exact absurd hr hlt.ne
    · exact hr
  have hbits : ∀ b, (tcpAcceptCb srv s).bmp.getLsbD b = true ↔
      ∃ cl ∈ (tcpAcceptCb srv s).clients, cl.sectionId = b := by
    intro b
    dsimp only [tcpAcceptCb]
    rw [if_neg (not_le.mpr hlt), socketBitmapSet, getLsbD_setBit (lt_trans hlt MAX_lt),
      Bool.or_eq_true, hc.bits b, decide_eq_true_iff, List.exists_mem_cons_iff, or_comm, eq_comm]
  refine ⟨hbits, List.pairwise_cons.mpr ⟨fun cl hcl heq => ?_, hc.distinct⟩,
    weight_iff (hs.accept srv) hbits⟩
  have hset := (hc.bits _).mpr ⟨cl, hcl, heq.symm⟩
  rw [hclear] at hset
  exact Bool.noConfusion hset

theorem Consistent.free {s : Sockets} (hc : s.Consistent) (hs : s.WellFormed) (ptr : ℕ) :
    (tcpFree ptr s).Consistent := by
  have hwf := hs.free ptr
  revert hwf
  unfold tcpFree
  split
  next => exact fun _ => hc
  next cl hfind =>
    intro hwf
    have hcl := List.mem_of_find?_eq_some hfind
    have hptr : cl.ptr = ptr := by simpa using List.find?_some hfind
    have hbits (b : ℕ) : (socketBitmapClear cl.sectionId s.bmp).getLsbD b = true ↔
        ∃ c ∈ s.clients.filter (fun c => decide (c.ptr ≠ ptr)), c.sectionId = b := by
      rw [socketBitmapClear, getLsbD_clearBit (lt_of_le_of_lt (hs.bound cl hcl) MAX_lt),
        Bool.and_eq_true, hc.bits b, decide_eq_true_iff]
      constructor
      · rintro ⟨⟨c, hmem, rfl⟩, hne⟩
        refine ⟨c, List.mem_filter.mpr ⟨hmem, decide_eq_true fun heq => hne ?_⟩, rfl⟩
        rw [List.inj_on_of_nodup_map (List.pairwise_map.mpr hs.ptrs) hmem hcl
          (heq.trans hptr.symm)]
      · rintro ⟨c, hmem, rfl⟩
        obtain ⟨hmem, hne⟩ := List.mem_filter.mp hmem
        refine ⟨⟨c, hmem, rfl⟩, fun heq => ?_⟩
        rw [List.inj_on_of_nodup_map (List.pairwise_map.mpr hc.distinct) hmem hcl heq] at hne
        exact of_decide_eq_true hne hptr
    exact ⟨hbits, hc.distinct.filter _, weight_iff hwf hbits⟩

/-- A client accepted when the map is full makes the map disagree with the clients. -/
theorem not_consistent_accept {s : Sockets} (hs : s.WellFormed) (hc : s.Consistent) (srv : ℕ)
    (hfull : MAX_CLINET_SOCKET_NUM ≤ s.clients.length) : ¬ (tcpAcceptCb srv s).Consistent := by
  intro hafter
  have hge : MAX_CLINET_SOCKET_NUM ≤ socketBitmapFindIndex s.bmp :=
    not_lt.mp fun h => absurd ((findIndex_lt_iff hs hc).mp h) (not_lt.mpr hfull)
  have hset := (hafter.bits (socketBitmapFindIndex s.bmp)).mpr
    ⟨_, List.mem_cons_self, rfl⟩
  have hclear := (hs.accept srv).high _ hge
  rw [hset] at hclear
  exact Bool.noConfusion hclear

theorem consistent_start : Consistent {} := by
  have hbits (b : ℕ) : ({} : Sockets).bmp.getLsbD b = true ↔
      ∃ cl ∈ ({} : Sockets).clients, cl.sectionId = b := by simp
  exact ⟨hbits, List.Pairwise.nil, weight_iff wellFormed_start hbits⟩

/-- An accept finds room in the map. -/
def HasRoom (s : Sockets) : SockOp → Prop
  | .accept _ => s.clients.length < MAX_CLINET_SOCKET_NUM
  | _ => True

/-- A step keeps the map in agreement with the clients exactly when an accept finds room. -/
theorem consistent_step_iff {s : Sockets} (hs : s.WellFormed) (hc : s.Consistent) (op : SockOp) :
    (s.step op).Consistent ↔ s.HasRoom op := by
  cases op with
  | accept srv =>
    refine ⟨fun hafter => ?_, fun hroom => hc.accept hs srv hroom⟩
    by_contra hfull
    exact not_consistent_accept hs hc srv (not_lt.mp hfull) hafter
  | acceptFails srv => exact iff_of_true hc trivial
  | free ptr => exact iff_of_true (hc.free hs ptr) trivial

/-- The bitmap agrees with the clients in every state of a run exactly when every accept of the
run finds fewer than `MAX_CLINET_SOCKET_NUM` clients connected. -/
theorem consistent_iff_room (ops : List SockOp) :
    (∀ pre, pre <+: ops → (run pre).Consistent) ↔
      ∀ pre srv, pre ++ [.accept srv] <+: ops →
        (run pre).clients.length < MAX_CLINET_SOCKET_NUM := by
  have hstates := forall_states_iff ⟨wellFormed_start, consistent_start⟩
    (fun _ op hs => hs.step op) (fun _ op hs hc => consistent_step_iff hs hc op) ops
  refine hstates.trans ⟨fun h pre srv hpre => h pre _ hpre, fun h pre op hpre => ?_⟩
  cases op with
  | accept srv => exact h pre srv hpre
  | _ => trivial

/-- Thirty-three clients connect and the first thirty-two leave: the weight is zero and the last
client is still connected, under an id that is no bit of the map. -/
theorem not_consistent_of_33_clients :
    ¬ (run (List.replicate 33 (.accept 0) ++ (List.range 32).map .free)).Consistent := by
  intro h
  have hclients : (run (List.replicate 33 (.accept 0) ++ (List.range 32).map .free)).clients =
      [{ ptr := 32, srv := 0, sectionId := 32 }] := by decide +kernel
  have hweight : socketBitmapWeight
      (run (List.replicate 33 (.accept 0) ++ (List.range 32).map .free)).bmp = 0 := by
    decide +kernel
  rw [h.weight.mp hweight] at hclients
  exact absurd hclients (by simp)

end Sockets

end M57Card.Net
