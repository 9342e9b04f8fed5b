import M57Card.Lib.Bitmap
import M57Card.Load.Channel
import M57Card.Uplink.Subscription
import Mathlib.Data.List.Perm.Basic

/-!
# Unloading bit files

`m57_unload_all_bitfile_from_fpga` writes an unload command for the chips of all present cards, and
`m57_unload_bitfile_by_client` for the chips of the subscriptions of a client (`m57.c`, lines
726–809). The chip ids are rebuilt from the number of the slot, and from the key of a subscription;
both ways keep three bits of the slot and two of the chip, while the map of present cards has
`MAX_FPGA_CARD_SLOT_NUM` slots and the ids of a client have eight bits for each.

## Main definitions

* `cardSlotChipNum`, `getSlotChipIdByHashid`.
* `m57UnloadAllBitfileFromFpga`, `m57UnloadBitfileByClient`.
* `UnloadsAll`, `UnloadsOwn` : the commands are those for the intended chips.

## Main results

* `eventsOf_foldl_unload` : the commands that a list of unloads writes.
* `unloads_intended_iff` : when the commands are the intended ones.
-/

namespace M57Card.M57

open Net Bytes Bitmap Uplink

/-- `MAX_FPGA_CARD_SLOT_NUM`. -/
def MAX_FPGA_CARD_SLOT_NUM : ℕ := 16

/-- `MAX_FPGA_CHIPID_NUM`. -/
def MAX_FPGA_CHIPID_NUM : ℕ := 2

/-- `CARD_SLOT_CHIP_NUM`: the chip id of a slot and a chip. -/
def cardSlotChipNum (slot chip : ℕ) : ℕ := slot % 2 ^ 3 * 2 ^ 8 + chip % 2 ^ 2

/-- `GET_SLOT_CHIP_ID_BY_HASHID`: the chip id of a key. -/
def getSlotChipIdByHashid (hid : ℕ) : ℕ := hid % 2 ^ 3 * 2 ^ 8 + hid / 2 ^ 3 % 2 ^ 2

/-- `cards_status_get_bitmap`. -/
def cardsStatusGetBitmap (h : Host) : Word := ofPred MAX_FPGA_CARD_SLOT_NUM h.cards

/-- `m57_unload_bitfile_from_fpga`; its result is not used. -/
def m57UnloadBitfileFromFpga (chip : ℕ) (h : Host) : Host :=
  if ioXdmaIsValidChipid h chip then m57StartUnloadBitfileFromFpga chip h else h

/-- `m57_unload_all_bitfile_from_fpga`. -/
def m57UnloadAllBitfileFromFpga (h : Host) : Host :=
  (forEachSetBit (cardsStatusGetBitmap h) MAX_FPGA_CARD_SLOT_NUM).foldl
    (fun h bit => (List.range' 1 MAX_FPGA_CHIPID_NUM).foldl
      (fun h i => m57UnloadBitfileFromFpga (cardSlotChipNum bit i) h) h) h

/-- `m57_unload_bitfile_by_client`, when no unload of the client is going on:
`_unload_bitfile_by_hashid` for every key of its table. -/
def m57UnloadBitfileByClient (c : Ctx) : Ctx :=
  c.onHost fun h => (myTable c).foldl
    (fun h hid => m57UnloadBitfileFromFpga (getSlotChipIdByHashid hid) h) h

/-- The unload command for a chip. -/
def unloadWrite (chip : ℕ) : Event := .xdma (m57AssambleLoadfileCmd chip 0x02)

/-- What is written to the FPGA between two moments. -/
def xdmaWrites (before after : Host) : List Event :=
  (after.eventsOf .xdma).drop (before.eventsOf .xdma).length

/-! ### The commands that are written -/

theorem m57AssambleLoadfileCmd_inj {chip chip' cmd : ℕ} (h : chip < 65536) (h' : chip' < 65536)
    (heq : m57AssambleLoadfileCmd chip cmd = m57AssambleLoadfileCmd chip' cmd) : chip = chip' := by
  have hu (n : ℕ) (hn : n < 65536) : u16 ((m57AssambleLoadfileCmd n cmd).drop 9) 0 = n := by
    have hdrop : (m57AssambleLoadfileCmd n cmd).drop 9 =
        le16 n ++ (UInt8.ofNat cmd :: [0x7e, 0xe7, 0xaa, 0x55]) := rfl
    rw [hdrop, u16_le16_append hn]
  rw [← hu chip h, heq, hu chip' h']

theorem unloadWrite_inj {chip chip' : ℕ} (h : chip < 65536) (h' : chip' < 65536) :
    unloadWrite chip = unloadWrite chip' ↔ chip = chip' :=
  ⟨fun heq => m57AssambleLoadfileCmd_inj h h' (Event.xdma.inj heq), congrArg unloadWrite⟩

theorem eventsOf_m57StartUnload (chip : ℕ) (h : Host) :
    (m57StartUnloadBitfileFromFpga chip h).eventsOf .xdma =
      h.eventsOf .xdma ++ [unloadWrite chip] := by
  have hwrite : (h.writeXdmaData (m57AssambleLoadfileCmd chip 0x02)).2.eventsOf .xdma =
      h.eventsOf .xdma ++ [unloadWrite chip] := eventsOf_emit_xdma _ h
  have hreg := (emits_regGetUnloadResult chip
    (h.writeXdmaData (m57AssambleLoadfileCmd chip 0x02)).2).grows.eventsOf_eq
    (k := .xdma) (by decide)
  unfold m57StartUnloadBitfileFromFpga
  dsimp only
  split_ifs
  · rw [Host.eventsOf_emit, hreg, hwrite]
    simp [Event.kind]
  · rw [hreg, hwrite]

theorem cards_m57UnloadBitfileFromFpga (chip : ℕ) (h : Host) :
    (m57UnloadBitfileFromFpga chip h).cards = h.cards := by
  unfold m57UnloadBitfileFromFpga
  split_ifs
  · exact (emits_m57StartUnloadBitfileFromFpga chip h).cards
  · rfl

/-- Unloading some chips writes the commands for those that are valid. -/
theorem eventsOf_foldl_unload (chips : List ℕ) (h : Host) :
    (chips.foldl (fun h chip => m57UnloadBitfileFromFpga chip h) h).eventsOf .xdma =
      h.eventsOf .xdma ++ (chips.filter (ioXdmaIsValidChipid h)).map unloadWrite := by
  induction chips generalizing h with
  | nil => simp
  | cons chip chips ih =>
    have hvalid : ioXdmaIsValidChipid (m57UnloadBitfileFromFpga chip h) =
        ioXdmaIsValidChipid h := by
      funext x
      rw [ioXdmaIsValidChipid, cards_m57UnloadBitfileFromFpga]
      rfl
    rw [List.foldl_cons, ih, hvalid]
    by_cases hchip : ioXdmaIsValidChipid h chip = true
    · rw [m57UnloadBitfileFromFpga, if_pos hchip, eventsOf_m57StartUnload,
        List.filter_cons_of_pos hchip]
      simp
    · rw [m57UnloadBitfileFromFpga, if_neg hchip, List.filter_cons_of_neg hchip]

theorem xdmaWrites_foldl_unload (chips : List ℕ) (h : Host) :
    xdmaWrites h (chips.foldl (fun h chip => m57UnloadBitfileFromFpga chip h) h) =
      (chips.filter (ioXdmaIsValidChipid h)).map unloadWrite := by
  rw [xdmaWrites, eventsOf_foldl_unload, List.drop_left]

/-! ### The chips of all present cards -/

/-- The slots with a card, of those that the map has. -/
def presentSlots (h : Host) : List ℕ := (List.range MAX_FPGA_CARD_SLOT_NUM).filter h.cards

/-- One command is written for every chip of every present card, and no other. -/
def UnloadsAll (h : Host) : Prop :=
  (xdmaWrites h (m57UnloadAllBitfileFromFpga h)).Perm
    ((presentSlots h).flatMap fun slot =>
      (List.range' 1 MAX_FPGA_CHIPID_NUM).map fun chip => unloadWrite (slot * 256 + chip))

/-- The commands for the chips of all present cards. -/
theorem xdmaWrites_m57UnloadAll (h : Host) :
    xdmaWrites h (m57UnloadAllBitfileFromFpga h) =
      (((presentSlots h).flatMap fun slot => (List.range' 1 MAX_FPGA_CHIPID_NUM).map
        (cardSlotChipNum slot)).filter (ioXdmaIsValidChipid h)).map unloadWrite := by
  have hslots : forEachSetBit (cardsStatusGetBitmap h) MAX_FPGA_CARD_SLOT_NUM =
      presentSlots h := by
    rw [forEachSetBit_eq _ (by decide), presentSlots]
    refine List.filter_congr fun i hi => ?_
    rw [cardsStatusGetBitmap, getLsbD_ofPred (by decide), decide_eq_true (List.mem_range.mp hi),
      Bool.true_and]
  rw [← xdmaWrites_foldl_unload, m57UnloadAllBitfileFromFpga, hslots, List.foldl_flatMap]
  simp only [List.foldl_map]

theorem cardSlotNum_cardSlotChipNum (slot chip : ℕ) :
    cardSlotNum (cardSlotChipNum slot chip) = slot % 8 := by
  simp only [cardSlotNum, cardSlotChipNum]
  omega

/-- All chips get their command exactly when the present cards are in the first eight slots. -/
theorem unloadsAll_iff (h : Host) :
    UnloadsAll h ↔ ∀ slot < MAX_FPGA_CARD_SLOT_NUM, h.cards slot = true → slot < 8 := by
  unfold UnloadsAll
  rw [xdmaWrites_m57UnloadAll]
  constructor
  · intro hperm slot hslot hcard
    -- the command of this slot is written, and a written command is for one of the first eight
    have hmem : unloadWrite (slot * 256 + 1) ∈ (presentSlots h).flatMap fun slot =>
        (List.range' 1 MAX_FPGA_CHIPID_NUM).map fun chip => unloadWrite (slot * 256 + chip) :=
      List.mem_flatMap.mpr ⟨slot, List.mem_filter.mpr ⟨List.mem_range.mpr hslot, hcard⟩,
        List.mem_map.mpr ⟨1, by decide, rfl⟩⟩
    obtain ⟨chip, hchip, heq⟩ := List.mem_map.mp (hperm.mem_iff.mpr hmem)
    obtain ⟨slot', -, hchip'⟩ := List.mem_flatMap.mp (List.mem_filter.mp hchip).1
    obtain ⟨i, -, rfl⟩ := List.mem_map.mp hchip'
    have hlt : slot < 16 := hslot
    have hbound : cardSlotChipNum slot' i < 65536 := by
      simp only [cardSlotChipNum]
      omega
    have hsame := (unloadWrite_inj hbound (by omega)).mp heq
    simp only [cardSlotChipNum] at hsame
    omega
  · intro hlow
    have hpresent (slot : ℕ) (hslot : slot ∈ presentSlots h) : slot < 8 ∧ h.cards slot = true := by
      obtain ⟨hrange, hcard⟩ := List.mem_filter.mp hslot
      exact ⟨hlow slot (List.mem_range.mp hrange) hcard, hcard⟩
    have hvalid : ∀ chip ∈ (presentSlots h).flatMap fun slot =>
        (List.range' 1 MAX_FPGA_CHIPID_NUM).map (cardSlotChipNum slot),
        ioXdmaIsValidChipid h chip = true := by
      intro chip hchip
      obtain ⟨slot, hslot, hchip⟩ := List.mem_flatMap.mp hchip
      obtain ⟨i, -, rfl⟩ := List.mem_map.mp hchip
      obtain ⟨hlt, hcard⟩ := hpresent slot hslot
      rw [ioXdmaIsValidChipid, cardSlotNum_cardSlotChipNum, Nat.mod_eq_of_lt hlt, hcard]
    rw [List.filter_eq_self.mpr hvalid, List.map_flatMap]
    refine List.Perm.flatMap_left _ fun slot hslot => List.Perm.of_eq ?_
    rw [List.map_map]
    refine List.map_congr_left fun i hi => ?_
    obtain ⟨hlt, -⟩ := hpresent slot hslot
    have hi' : i < 1 + 2 := (List.mem_range'_1.mp hi).2
    have hnum : cardSlotChipNum slot i = slot * 256 + i := by
      simp only [cardSlotChipNum]
      omega
    rw [Function.comp_apply, hnum]

/-! ### The chips of a client -/

/-- A command of a subscription history: REGISTER, DATA_SUB or DATA_UNSUB. -/
def SubscriptionCmd (body : List UInt8) : Prop :=
  cardCmd (u16 body 0) = .register ∨ cardCmd (u16 body 0) = .dataSub ∨
    cardCmd (u16 body 0) = .dataUnsub

/-- A history subscribes with a chip id. -/
def SubscribesWith (cmds : List (ℕ × List UInt8)) (chip : ℕ) : Prop :=
  ∃ x ∈ cmds, cardCmd (u16 x.2 0) = .dataSub ∧ (subIdOf x.2).chip = chip

/-- Commands are written only for chip ids that the history subscribes with, and one command for
each chip with a present card that the table has a key for. -/
structure UnloadsOwn (c : Ctx) (cmds : List (ℕ × List UInt8)) : Prop where
  only : ∀ e ∈ xdmaWrites c.host (m57UnloadBitfileByClient c).host,
    ∃ chip, SubscribesWith cmds chip ∧ e = unloadWrite chip
  once : ∀ key ∈ myTable c, ioXdmaIsValidChipid c.host (getSlotChipIdByHashid key) = true →
    (xdmaWrites c.host (m57UnloadBitfileByClient c).host).count
      (unloadWrite (getSlotChipIdByHashid key)) = 1

theorem xdmaWrites_m57UnloadBitfileByClient (c : Ctx) :
    xdmaWrites c.host (m57UnloadBitfileByClient c).host =
      (((myTable c).map getSlotChipIdByHashid).filter (ioXdmaIsValidChipid c.host)).map
        unloadWrite := by
  rw [← xdmaWrites_foldl_unload, List.foldl_map]
  rfl

/-- The chip id of a key has the bits of the chip id that the key was made of. -/
theorem getSlotChipIdByHashid_key (i : SubId) (prio : ℤ) :
    getSlotChipIdByHashid (i.key prio) = cardSlotNum i.chip * 256 + cardChipNum i.chip := by
  have hslot : cardSlotNum i.chip < 8 := Nat.mod_lt _ (by decide)
  have hchip : cardChipNum i.chip < 4 := Nat.mod_lt _ (by decide)
  simp only [getSlotChipIdByHashid, SubId.key, getHashmapId]
  omega

theorem getSlotChipIdByHashid_lt (key : ℕ) : getSlotChipIdByHashid key < 65536 := by
  simp only [getSlotChipIdByHashid]
  omega

theorem nodup_hash_clientHashInsert {p : Peer} (hp : p.hash.Nodup) (key : ℕ) :
    (clientHashInsert key p).hash.Nodup := by
  unfold clientHashInsert
  split_ifs with hrefused
  · exact hp
  · refine List.Nodup.append hp (List.nodup_singleton key) ?_
    rw [List.disjoint_singleton]
    exact fun hmem => hrefused (Or.inr hmem)

/-- The table of a client with a history: no key twice, and every key from a subscription. -/
structure TableOf (c : Ctx) (cmds : List (ℕ × List UInt8)) : Prop where
  client : ∃ prio, IsClient c prio
  nodup : (myTable c).Nodup
  keys : ∀ key ∈ myTable c, ∃ x ∈ cmds, cardCmd (u16 x.2 0) = .dataSub ∧
    ∃ prio, key = (subIdOf x.2).key prio

/-- One command of a subscription history. -/
theorem TableOf.step {cn : Conn Ctx} {cmds : List (ℕ × List UInt8)} (ht : TableOf cn.proto cmds)
    (x : ℕ × List UInt8) (hx : SubscriptionCmd x.2) :
    TableOf (m57ExecuteCmd x.1 x.2 cn).1.proto (cmds ++ [x]) := by
  obtain ⟨⟨prio, hc⟩, hnodup, hkeys⟩ := ht
  have hc' : IsClient (cn.proto.emit (.execute x.2)) prio := ⟨hc.ids, hc.mine⟩
  have hold (key : ℕ) (hkey : key ∈ myTable cn.proto) : ∃ y ∈ cmds ++ [x],
      cardCmd (u16 y.2 0) = .dataSub ∧ ∃ prio, key = (subIdOf y.2).key prio := by
    obtain ⟨y, hy, hsub⟩ := hkeys key hkey
    exact ⟨y, List.mem_append_left _ hy, hsub⟩
  rcases hx with hcmd | hcmd | hcmd
  · obtain ⟨hclient, -, htable⟩ := isClient_registerClient x.2 hc'
    rw [proto_register hcmd]
    have htable' : myTable (registerClient x.2 (cn.proto.emit (.execute x.2))) =
        myTable cn.proto := htable
    exact ⟨⟨_, hclient⟩, by rwa [htable'], by rwa [htable']⟩
  · rw [proto_dataSub hcmd, dataSub]
    split_ifs
    · obtain ⟨hclient, -, me, hme, htable⟩ := isClient_onSubscription x.2
        (f := clientHashInsert) id_clientHashInsert prio_clientHashInsert hc'
      have hme' : myTable cn.proto = me.hash := hme
      refine ⟨⟨_, hclient⟩, ?_, fun key hkey => ?_⟩
      · rw [htable]
        exact nodup_hash_clientHashInsert (hme' ▸ hnodup) _
      · rw [htable, mem_hash_clientHashInsert] at hkey
        obtain hkey | ⟨rfl, -⟩ := hkey
        · exact hold key (hme' ▸ hkey)
        · exact ⟨x, List.mem_append_right _ (List.mem_singleton_self x), hcmd, prio, rfl⟩
    · exact ⟨⟨_, hc'⟩, hnodup, hold⟩
  · obtain ⟨hclient, -, me, hme, htable⟩ := isClient_onSubscription x.2
      (f := clientHashDeleteItem) (fun _ _ => rfl) (fun _ _ => rfl) hc'
    have hme' : myTable cn.proto = me.hash := hme
    rw [proto_dataUnsub hcmd, dataUnsub]
    refine ⟨⟨_, hclient⟩, ?_, fun key hkey => ?_⟩
    · rw [htable]
      exact (hme' ▸ hnodup).filter _
    · rw [htable, mem_hash_clientHashDeleteItem] at hkey
      exact hold key (hme' ▸ hkey.1)

/-- The table of a client after a subscription history. -/
theorem tableOf_runCmds {cn : Conn Ctx} {prio : ℤ} (hc : IsClient cn.proto prio)
    (hnew : myTable cn.proto = []) (cmds : List (ℕ × List UInt8))
    (hcmds : ∀ x ∈ cmds, SubscriptionCmd x.2) : TableOf (runCmds cn cmds).proto cmds := by
  induction cmds using List.reverseRecOn with
  | nil =>
    have hempty : myTable (runCmds cn []).proto = [] := hnew
    exact ⟨⟨prio, hc⟩, by simp [hempty], by simp [hempty]⟩
  | append_singleton cmds x ih =>
    rw [runCmds_append_singleton]
    exact (ih fun y hy => hcmds y (List.mem_append_left _ hy)).step x
      (hcmds x (List.mem_append_right _ (List.mem_singleton_self x)))

/-- In a list without repetition, a property is counted once when it has one element. -/
theorem countP_eq_one_iff {α : Type} {p : α → Bool} {l : List α} (hl : l.Nodup) {a : α}
    (ha : a ∈ l) (hp : p a = true) : l.countP p = 1 ↔ ∀ b ∈ l, p b = true → b = a := by
  rw [List.countP_eq_length_filter, List.length_eq_one_iff]
  have hmem : a ∈ l.filter p := List.mem_filter.mpr ⟨ha, hp⟩
  constructor
  · rintro ⟨x, hx⟩ b hb hpb
    have hb' : b ∈ l.filter p := List.mem_filter.mpr ⟨hb, hpb⟩
    rw [hx, List.mem_singleton] at hmem hb'
    rw [hb', hmem]
  · intro hall
    refine ⟨a, List.perm_singleton.mp
      ((List.perm_ext_iff_of_nodup (hl.filter p) (List.nodup_singleton a)).mpr fun b => ?_)⟩
    rw [List.mem_singleton]
    constructor
    · intro hb
      exact hall b (List.mem_filter.mp hb).1 (List.mem_filter.mp hb).2
    · rintro rfl
      exact hmem

/-- The number of commands for the chip of a key. -/
theorem count_xdmaWrites (c : Ctx) {key : ℕ}
    (hvalid : ioXdmaIsValidChipid c.host (getSlotChipIdByHashid key) = true) :
    (xdmaWrites c.host (m57UnloadBitfileByClient c).host).count
        (unloadWrite (getSlotChipIdByHashid key)) =
      (myTable c).countP fun k =>
        decide (getSlotChipIdByHashid k = getSlotChipIdByHashid key) := by
  rw [xdmaWrites_m57UnloadBitfileByClient, List.count_eq_countP, List.countP_map,
    List.countP_filter, List.countP_map]
  refine List.countP_congr fun k _ => ?_
  simp only [Function.comp_apply, Bool.and_eq_true, beq_iff_eq, decide_eq_true_eq,
    unloadWrite_inj (getSlotChipIdByHashid_lt k) (getSlotChipIdByHashid_lt key)]
  constructor
  · exact And.left
  · intro heq
    rw [heq]
    exact ⟨rfl, hvalid⟩

/-- There is one command for each chip with a present card exactly when the table has one key for
it. -/
theorem count_unloadWrite_iff {c : Ctx} (hnodup : (myTable c).Nodup) :
    (∀ key ∈ myTable c, ioXdmaIsValidChipid c.host (getSlotChipIdByHashid key) = true →
      (xdmaWrites c.host (m57UnloadBitfileByClient c).host).count
        (unloadWrite (getSlotChipIdByHashid key)) = 1) ↔
      ∀ key ∈ myTable c, ∀ key' ∈ myTable c,
        ioXdmaIsValidChipid c.host (getSlotChipIdByHashid key) = true →
          getSlotChipIdByHashid key' = getSlotChipIdByHashid key → key' = key := by
  refine forall₂_congr fun key hkey => ?_
  by_cases hvalid : ioXdmaIsValidChipid c.host (getSlotChipIdByHashid key) = true
  · rw [count_xdmaWrites c hvalid, countP_eq_one_iff hnodup hkey (decide_eq_true rfl)]
    simp [hvalid]
  · simp [hvalid]

theorem ioXdmaIsValidChipid_key (h : Host) (i : SubId) (prio : ℤ) :
    ioXdmaIsValidChipid h (getSlotChipIdByHashid (i.key prio)) = h.cards (cardSlotNum i.chip) := by
  have hslot : cardSlotNum (cardSlotNum i.chip * 256 + cardChipNum i.chip) =
      cardSlotNum i.chip := by
    simp only [cardSlotNum, cardChipNum]
    omega
  rw [ioXdmaIsValidChipid, getSlotChipIdByHashid_key, hslot]

/-- The commands are for chip ids of the history exactly when the ids that the keys keep are. -/
theorem forall_unloadWrite_iff {c : Ctx} {cmds : List (ℕ × List UInt8)} (ht : TableOf c cmds) :
    (∀ e ∈ xdmaWrites c.host (m57UnloadBitfileByClient c).host,
      ∃ chip, SubscribesWith cmds chip ∧ e = unloadWrite chip) ↔
      ∀ x ∈ cmds, cardCmd (u16 x.2 0) = .dataSub →
        (∃ prio, (subIdOf x.2).key prio ∈ myTable c) →
        c.host.cards (cardSlotNum (subIdOf x.2).chip) = true →
          SubscribesWith cmds
            (cardSlotNum (subIdOf x.2).chip * 256 + cardChipNum (subIdOf x.2).chip) := by
  rw [xdmaWrites_m57UnloadBitfileByClient]
  constructor
  · rintro h x hx hsub ⟨prio, hkey⟩ hcard
    have hmem : unloadWrite (getSlotChipIdByHashid ((subIdOf x.2).key prio)) ∈
        (((myTable c).map getSlotChipIdByHashid).filter (ioXdmaIsValidChipid c.host)).map
          unloadWrite := by
      refine List.mem_map_of_mem (List.mem_filter.mpr ⟨List.mem_map_of_mem hkey, ?_⟩)
      rw [ioXdmaIsValidChipid_key, hcard]
    obtain ⟨chip, hchip, heq⟩ := h _ hmem
    have hlt : chip < 65536 := by
      obtain ⟨y, -, -, rfl⟩ := hchip
      change u16 y.2 8 < 65536
      exact u16_lt _ _
    rw [unloadWrite_inj (getSlotChipIdByHashid_lt _) hlt, getSlotChipIdByHashid_key] at heq
    rwa [heq]
  · intro h e he
    obtain ⟨chip, hchip, rfl⟩ := List.mem_map.mp he
    obtain ⟨hmem, hvalid⟩ := List.mem_filter.mp hchip
    obtain ⟨key, hkey, rfl⟩ := List.mem_map.mp hmem
    obtain ⟨x, hx, hsub, prio, rfl⟩ := ht.keys key hkey
    rw [ioXdmaIsValidChipid_key] at hvalid
    refine ⟨_, h x hx hsub ⟨prio, hkey⟩ hvalid, ?_⟩
    rw [getSlotChipIdByHashid_key]

/-- The commands of a client are the intended ones exactly when its table has one key for each chip
with a present card, and the history subscribes with the chip ids of the keys. -/
theorem unloadsOwn_iff {c : Ctx} {cmds : List (ℕ × List UInt8)} (ht : TableOf c cmds) :
    UnloadsOwn c cmds ↔
      (∀ key ∈ myTable c, ∀ key' ∈ myTable c,
        ioXdmaIsValidChipid c.host (getSlotChipIdByHashid key) = true →
          getSlotChipIdByHashid key' = getSlotChipIdByHashid key → key' = key) ∧
      ∀ x ∈ cmds, cardCmd (u16 x.2 0) = .dataSub →
        (∃ prio, (subIdOf x.2).key prio ∈ myTable c) →
        c.host.cards (cardSlotNum (subIdOf x.2).chip) = true →
          SubscribesWith cmds
            (cardSlotNum (subIdOf x.2).chip * 256 + cardChipNum (subIdOf x.2).chip) := by
  rw [← count_unloadWrite_iff ht.nodup, ← forall_unloadWrite_iff ht]
  exact ⟨fun h => ⟨h.once, h.only⟩, fun h => ⟨h.2, h.1⟩⟩

/-- **Which unload commands are written.** The commands for all cards are those for the chips of the
present cards exactly when no card is in a slot from eight on. After a subscription history, the
commands for a client are one for each chip it has subscribed with exactly when its table has a
single key for each chip with a present card, and every chip id in force is, with the bits that the
key keeps, one that it has subscribed with. -/
theorem unloads_intended_iff (h : Host) (cn : Conn Ctx) (prio : ℤ) (cmds : List (ℕ × List UInt8))
    (hc : IsClient cn.proto prio) (hnew : myTable cn.proto = [])
    (hcmds : ∀ x ∈ cmds, SubscriptionCmd x.2) :
    (UnloadsAll h ↔ ∀ slot < MAX_FPGA_CARD_SLOT_NUM, h.cards slot = true → slot < 8) ∧
      (UnloadsOwn (runCmds cn cmds).proto cmds ↔
        (∀ key ∈ myTable (runCmds cn cmds).proto, ∀ key' ∈ myTable (runCmds cn cmds).proto,
          ioXdmaIsValidChipid (runCmds cn cmds).proto.host (getSlotChipIdByHashid key) = true →
            getSlotChipIdByHashid key' = getSlotChipIdByHashid key → key' = key) ∧
        ∀ x ∈ cmds, cardCmd (u16 x.2 0) = .dataSub →
          (∃ prio, (subIdOf x.2).key prio ∈ myTable (runCmds cn cmds).proto) →
          (runCmds cn cmds).proto.host.cards (cardSlotNum (subIdOf x.2).chip) = true →
            SubscribesWith cmds
              (cardSlotNum (subIdOf x.2).chip * 256 + cardChipNum (subIdOf x.2).chip)) :=
  ⟨unloadsAll_iff h, unloadsOwn_iff (tableOf_runCmds hc hnew cmds hcmds)⟩

/-- A card in slot five, and a client with one subscription to its second chip. -/
theorem unloads_intended_slot_five :
    UnloadsAll { env := Env.reliable, cards := fun slot => decide (slot = 5) } ∧
      UnloadsOwn (runCmds onlyClient [(14, subBody 3 0x502 1 0)]).proto
        [(14, subBody 3 0x502 1 0)] := by
  have htable : myTable (runCmds onlyClient [(14, subBody 3 0x502 1 0)]).proto = [53] := by
    decide +kernel
  obtain ⟨hall, hown⟩ := unloads_intended_iff
    { env := Env.reliable, cards := fun slot => decide (slot = 5) } onlyClient 0
    [(14, subBody 3 0x502 1 0)] isClient_onlyClient rfl
    (List.forall_mem_singleton.mpr (.inr (.inl (by decide))))
  refine ⟨hall.mpr fun slot _ hcard => ?_, hown.mpr ⟨?_, ?_⟩⟩
  · have hslot : slot = 5 := of_decide_eq_true hcard
    omega
  · rw [htable]
    rintro key hkey key' hkey' - -
    rw [List.mem_singleton.mp hkey, List.mem_singleton.mp hkey']
  · intro x hx hsub _ _
    rw [List.mem_singleton.mp hx]
    exact ⟨_, List.mem_singleton_self _, by decide, by decide⟩

/-- A card in slot eight gets no command, and a client with two functions of one chip has two
commands written for it. -/
theorem not_unloads_intended :
    ¬ UnloadsAll { env := Env.reliable, cards := fun slot => decide (slot = 8) } ∧
      ¬ UnloadsOwn
        (runCmds onlyClient [(14, subBody 3 0x502 1 0), (14, subBody 3 0x502 2 0)]).proto
        [(14, subBody 3 0x502 1 0), (14, subBody 3 0x502 2 0)] := by
  constructor
  · intro h
    exact absurd h.length_eq (by decide +kernel)
  · intro h
    exact absurd (h.once 53 (by decide +kernel) (by decide +kernel)) (by decide +kernel)

end M57Card.M57
