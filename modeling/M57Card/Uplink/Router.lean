import M57Card.Lib.Memory
import M57Card.Protocol.Response
import M57Card.Protocol.Subscribe
import M57Card.Uplink.SpmHash

/-!
# The router of uplink data

The FPGA delivers data in blocks of at most `XDMA_BLOCK_SIZE` bytes. A block has frames, each with
the sync word `0x5751`, a length and an inner data header, and possibly filler between them.
`xdma_data_dispatcher_buffer` (`spm_xdma.c`, lines 731–790) cuts a block into runs of frames with
equal subscription parameters and files each run as one vector under the key of its first frame;
`_xdma_of_match_pkgs` (lines 546–685) finds the run at a given offset.

Memory is read by pointers, so that the addresses behind a block have contents too. The pointer
`ptr` of the scan is always `sum_len` bytes behind `data`, and the `data` of a call is `offp` bytes
behind the start of the block.

The counters of the channel (`net_statistics.h`) are those of a channel below `MAX_XDMA_NUM`.

## Main definitions

* `CardsStatus` : the slots with a card, and `io_xdma_is_valid_chipid`.
* `xdmaFindNextHeader`, `xdmaOfMatchPkgs`, `xdmaLoadDispBuffer`, `xdmaDataDispatcherBuffer`.
* `Channel` : the table, the counters, and the calls of `spm_hash_renew` so far.
-/

namespace M57Card.Uplink

open M57

/-! ### Cards -/

/-- The bitmap of the slots with a card. Bits are set for the card slots only (`_reg.h`, lines 325
and 382) and never cleared. -/
structure CardsStatus where
  test : ℕ → Bool
  mem_cardSlots : ∀ slot, test slot = true → slot ∈ cardSlots

/-- `io_xdma_is_valid_chipid`. -/
def CardsStatus.isValidChipid (cards : CardsStatus) (chip : ℕ) : Bool :=
  cards.test (cardSlotNum chip)

/-- A card in slot five only. -/
def CardsStatus.slotFive : CardsStatus where
  test slot := decide (slot = 5)
  mem_cardSlots := by
    rintro slot hslot
    rw [of_decide_eq_true hslot]
    decide

/-! ### Frames -/

/-- `XDMA_BLOCK_SIZE`. -/
def XDMA_BLOCK_SIZE : ℕ := 0x400000

/-- `_MAX_PACKAGES_NUM`. -/
def MAX_PACKAGES_NUM : ℕ := 16384

/-- `XDMA_DATA_TYPE_MAX_PKGS`. -/
def XDMA_DATA_TYPE_MAX_PKGS : ℕ := 65536

/-- `struct net_sub_st`. -/
structure NetSub where
  chipId : ℕ := 0
  funcId : ℕ := 0
  prioId : ℕ := 0
  port : ℕ := 0
  deriving DecidableEq

/-- The subscription parameters of the frame at an address; priority three is the urgent class. -/
def frameSub (m : Mem) (p : ℕ) : NetSub where
  chipId := m.u16 (p + 10)
  funcId := m.u16 (p + 18)
  prioId := if m.byteAt (p + 3) / 16 = 3 then 1 else 0
  port := m.u16 (p + 20)

/-- The length field of the frame at an address. -/
def frameLen (m : Mem) (p : ℕ) : ℕ := m.u16 (p + 4)

/-- There is a sync word at the address. -/
def IsSync (m : Mem) (p : ℕ) : Prop := m.u16 p = M57_SYNC_HEADER

instance (m : Mem) : DecidablePred (IsSync m) := fun _ => inferInstanceAs (Decidable (_ = _))

/-- The header of a frame with the given priority, length, chip, function and port, and zeros in the
other fields. -/
def headerBytes (prio len chip func port : ℕ) : List UInt8 :=
  Bytes.le16 M57_SYNC_HEADER ++ [0, UInt8.ofNat (16 * prio)] ++ Bytes.le16 len ++ [0, 0, 0, 0] ++
    Bytes.le16 chip ++ [0, 0, 0, 0, 0, 0] ++ Bytes.le16 func ++ Bytes.le16 port ++ [0, 0]

/-- `_xdma_find_next_header`: the distance to the next sync word, in steps of eight bytes below
`len`. -/
def xdmaFindNextHeader (m : Mem) (p len : ℕ) : Option ℕ :=
  ((List.range ((len + 7) / 8)).map (8 * ·)).find? fun off => IsSync m (p + off)

/-! ### The scan for one run -/

/-- The variables of the scan: the frames so far, `sum_len` and the parameters of the first. -/
structure Scan where
  pos : ℕ := 0
  sumLen : ℕ := 0
  sub : NetSub := {}

/-- What a scan gives back. -/
structure MatchResult where
  sumLen : ℕ
  pos : ℕ
  sub : NetSub
  errCode : Bool := false
  readOver : Bool := false
  deriving DecidableEq

section Scan

variable (m : Mem) (cards : CardsStatus) (data len offp : ℕ)

/-- The frame of an iteration, at `ptr`, is counted and stepped over. -/
def countFrame (s : Scan) : Scan ⊕ MatchResult :=
  if MAX_PACKAGES_NUM ≤ s.pos + 1 then
    .inr { sumLen := 0, pos := s.pos + 1, sub := s.sub, errCode := true }
  else
    .inl { s with pos := s.pos + 1, sumLen := s.sumLen + frameLen m (data + s.sumLen) }

/-- The part of an iteration behind the search for a header: the frame at `ptr`. -/
def matchFrame (s : Scan) : Scan ⊕ MatchResult :=
  let sub := frameSub m (data + s.sumLen)
  if 2048 < frameLen m (data + s.sumLen) then
    .inr { sumLen := 0, pos := s.pos, sub := s.sub, errCode := true }
  else if s.pos = 0 then
    if cards.isValidChipid sub.chipId = false then
      .inr { sumLen := s.sumLen, pos := s.pos, sub := s.sub, errCode := true }
    else
      countFrame m data { s with sub := sub }
  else if s.sub.chipId ≠ sub.chipId ∨ s.sub.funcId ≠ sub.funcId ∨ s.sub.port ≠ sub.port then
    if cards.isValidChipid sub.chipId = false then
      .inr { sumLen := s.sumLen, pos := s.pos, sub := s.sub, errCode := true }
    else
      .inr { sumLen := s.sumLen, pos := s.pos, sub := s.sub }
  else
    countFrame m data s

/-- One iteration of the scan. -/
def matchIter (s : Scan) : Scan ⊕ MatchResult :=
  if IsSync m (data + s.sumLen) then
    matchFrame m cards data s
  else if s.sumLen ≠ 0 then
    if len < offp then
      .inr { sumLen := s.sumLen, pos := s.pos, sub := s.sub, errCode := true }
    else if s.sumLen = len - offp then
      .inr { sumLen := s.sumLen, pos := s.pos, sub := s.sub, readOver := true }
    else if s.sumLen < len - offp then
      match xdmaFindNextHeader m (data + s.sumLen) (len - offp - s.sumLen) with
      | some skip =>
          if len < s.sumLen + skip + offp then
            .inr { sumLen := s.sumLen, pos := s.pos, sub := s.sub, errCode := true }
          else
            matchFrame m cards data { s with sumLen := s.sumLen + skip }
      | none => .inr { sumLen := s.sumLen, pos := s.pos, sub := s.sub }
    else
      .inr { sumLen := 0, pos := s.pos, sub := s.sub, errCode := true }
  else
    .inr { sumLen := s.sumLen, pos := s.pos, sub := s.sub }

/-- The scan; an iteration that goes on has counted one more frame, so that `MAX_PACKAGES_NUM`
iterations are enough. -/
def matchLoop : ℕ → Scan → MatchResult
  | 0, s => { sumLen := s.sumLen, pos := s.pos, sub := s.sub }
  | n + 1, s =>
      match matchIter m cards data len offp s with
      | .inr r => r
      | .inl s' =>
          if s'.sumLen < len - offp then matchLoop n s'
          else { sumLen := s'.sumLen, pos := s'.pos, sub := s'.sub }

end Scan

/-! ### Counters -/

/-- The counters of a channel. -/
@[ext]
structure UplinkStat where
  readBytes : ℕ := 0
  routeBytes : ℕ := 0
  forwardPkgs : ℕ := 0
  routeErrPkgs : ℕ := 0
  deriving DecidableEq

/-- `ns_uplink_get_read_bytes`, which returns the other counter. -/
def nsUplinkGetReadBytes (s : UplinkStat) : ℕ := s.routeBytes

/-- `ns_uplink_get_route_bytes`. -/
def nsUplinkGetRouteBytes (s : UplinkStat) : ℕ := s.routeBytes

/-- `_xdma_of_match_pkgs`. -/
def xdmaOfMatchPkgs (m : Mem) (cards : CardsStatus) (data len offp : ℕ) (st : UplinkStat) :
    MatchResult × UplinkStat :=
  if len ≤ offp ∨ XDMA_BLOCK_SIZE < len then
    ({ sumLen := 0, pos := 0, sub := {}, readOver := true }, st)
  else
    let r := matchLoop m cards data len offp MAX_PACKAGES_NUM {}
    let r' := if r.errCode ∨ len - offp ≤ r.sumLen then { r with readOver := true } else r
    let st := if r.errCode then { st with routeErrPkgs := st.routeErrPkgs + 1 } else st
    let st := if 0 < r.pos ∧ r.pos < MAX_PACKAGES_NUM then
        { st with forwardPkgs := st.forwardPkgs + r.pos }
      else st
    (r', st)

/-! ### Filing the runs of a block -/

/-- `struct iovec`. -/
structure Iovec where
  base : ℕ
  len : ℕ
  deriving DecidableEq, Inhabited

/-- The table and the counters of a channel, and the calls of `spm_hash_renew` so far. -/
structure Channel where
  table : SpmHash Iovec := spmHashCreate
  stat : UplinkStat := {}
  renewed : List (ℤ × Iovec) := []

/-- `GET_HASHMAP_ID` of subscription parameters. -/
def NetSub.hashId (sub : NetSub) : ℤ := getHashmapId sub.chipId sub.funcId sub.prioId sub.port

/-- `_xdma_load_disp_buffer`. -/
def xdmaLoadDispBuffer (u : Channel) (data len : ℕ) (sub : NetSub) : Channel :=
  let rv := spmHashRenew u.table sub.hashId ⟨data, len⟩
  { table := rv.1
    stat := if 0 ≤ rv.2 then { u.stat with routeBytes := u.stat.routeBytes + len }
      else { u.stat with routeErrPkgs := u.stat.routeErrPkgs + 1 }
    renewed := u.renewed ++ [(sub.hashId, ⟨data, len⟩)] }

/-- The loop over the runs of a block that starts at `header`; the first argument is the number of
runs that `counter` still allows. -/
def dispatchLoop (m : Mem) (cards : CardsStatus) (header len : ℕ) : ℕ → ℕ → Channel → Channel
  | 0, _, u => u
  | n + 1, offset, u =>
      let (r, stat) := xdmaOfMatchPkgs m cards (header + offset) len offset u.stat
      let u := { u with stat := stat }
      if len < r.sumLen ∨ XDMA_BLOCK_SIZE < r.sumLen then
        u
      else
        let u := if 0 < r.sumLen then xdmaLoadDispBuffer u (header + offset) r.sumLen r.sub else u
        if len < offset + r.sumLen then u
        else if r.readOver ∨ r.sumLen = 0 then u
        else if offset + r.sumLen < len then
          dispatchLoop m cards header len n (offset + r.sumLen) u
        else u

/-- One block of `xdma_data_dispatcher_buffer`. -/
def dispatchBlock (m : Mem) (cards : CardsStatus) (u : Channel) (header len : ℕ) : Channel :=
  let u := dispatchLoop m cards header len XDMA_DATA_TYPE_MAX_PKGS 0 u
  { u with stat := { u.stat with readBytes := u.stat.readBytes + len } }

/-- `xdma_data_dispatcher_buffer`: the blocks, each with its address and its length, one after the
other. -/
def xdmaDataDispatcherBuffer (m : Mem) (cards : CardsStatus) (blocks : List (ℕ × ℕ)) (u : Channel) :
    Channel :=
  blocks.foldl (fun u b => dispatchBlock m cards u b.1 b.2) u

end M57Card.Uplink
