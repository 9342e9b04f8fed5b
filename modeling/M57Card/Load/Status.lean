import M57Card.Load.Unload

/-!
# The load status of a slot

`net_statistics.chip` keeps for every slot whether its chips are loaded, and how many loads have
succeeded that no unload has taken back (`net_statistics.h`, lines 289–333). The counter is a
`uint64_t`; an unload adds the `int` -1 to it, unless it is zero. The status is set back to
`DEVICE_STATUS_WAIT_LOAD` by the unload that leaves the counter at zero.

## Main definitions

* `ChipStatus`, `nsDownlinkSetLoadokCount`, `nsDownlinkSetLoadbitResult`.
* `afterCalls` : the status of the slots after a sequence of calls.
* `SlotInv` : what holds of a slot after a sequence of calls.

## Main results

* `afterCalls_valid` : the invariant, along any sequence of calls.
* `afterCalls_loadStatus` : what the status and the count of a slot say.
* `afterCalls_loadCount_wraps` : `2 ^ 64` successful loads.
* `afterCalls_unload` : the unload of a bit file.
-/

namespace M57Card.M57

open Net

/-- `DEVICE_STATUS_WAIT_LINK`. -/
def DEVICE_STATUS_WAIT_LINK : ℤ := 6

/-- `struct net_statistics_chip_status`. -/
structure ChipStatus where
  linkStatus : ℤ
  loadStatus : ℤ
  loadCount : ℕ
  deriving DecidableEq

/-- A slot after `net_statistics_init`. -/
def ChipStatus.start : ChipStatus := ⟨DEVICE_STATUS_WAIT_LINK, DEVICE_STATUS_WAIT_LOAD, 0⟩

/-- `ns_downlink_set_loadok_count` on the entry of a slot; `count` is added in 64 bits. -/
def nsDownlinkSetLoadokCount (count : ℤ) (s : ChipStatus) : ChipStatus :=
  if count < 0 ∧ s.loadCount = 0 then
    s
  else
    { s with loadCount := ((s.loadCount + count) % 2 ^ 64).toNat }

/-- `ns_downlink_set_loadbit_result` on the entry of a slot. -/
def ChipStatus.setLoadbitResult (status : ℤ) (s : ChipStatus) : ChipStatus :=
  if status = DEVICE_STATUS_LOAD_OK then
    { nsDownlinkSetLoadokCount 1 s with loadStatus := status }
  else if status = DEVICE_STATUS_WAIT_LOAD then
    let s := nsDownlinkSetLoadokCount (-1) s
    if s.loadCount = 0 then { s with loadStatus := status } else s
  else
    { s with loadStatus := status }

/-- `ns_downlink_set_loadbit_result`. The guard lets the number behind the last slot pass, too;
there is no entry with this number, and the call has no result. -/
def nsDownlinkSetLoadbitResult (slotid : ℕ) (status : ℤ) (chip : ℕ → ChipStatus) :
    Option (ℕ → ChipStatus) :=
  if MAX_FPGA_CARD_SLOT_NUM < slotid then some chip
  else if slotid = MAX_FPGA_CARD_SLOT_NUM then none
  else some (Function.update chip slotid ((chip slotid).setLoadbitResult status))

/-- The status of the slots after a sequence of calls of `ns_downlink_set_loadbit_result`. -/
def afterCalls : List (ℕ × ℤ) → (ℕ → ChipStatus) → Option (ℕ → ChipStatus)
  | [], chip => some chip
  | c :: calls, chip => (nsDownlinkSetLoadbitResult c.1 c.2 chip).bind (afterCalls calls)

/-- The slots after `net_statistics_init`. -/
def startSlots : ℕ → ChipStatus := fun _ => .start

/-- The number of successful loads of a slot. -/
def loadOks (calls : List (ℕ × ℤ)) (slot : ℕ) : ℕ := calls.count (slot, DEVICE_STATUS_LOAD_OK)

/-! ### One call -/

section Call

variable {s : ChipStatus} {status : ℤ}

theorem setLoadokCount_one (s : ChipStatus) :
    nsDownlinkSetLoadokCount 1 s = { s with loadCount := (s.loadCount + 1) % 2 ^ 64 } := by
  have hcast : ((s.loadCount + 1 : ℤ) % 2 ^ 64).toNat = (s.loadCount + 1) % 2 ^ 64 := by omega
  rw [nsDownlinkSetLoadokCount, if_neg (fun h => absurd h.1 (by decide)), hcast]

/-- The counter goes down by one, and not below zero. -/
theorem setLoadokCount_neg_one (hbound : s.loadCount < 2 ^ 64) :
    nsDownlinkSetLoadokCount (-1) s = { s with loadCount := s.loadCount - 1 } := by
  rw [nsDownlinkSetLoadokCount]
  split_ifs with hzero
  · rw [hzero.2, Nat.zero_sub, ← hzero.2]
  · have hcast : ((s.loadCount + -1 : ℤ) % 2 ^ 64).toNat = s.loadCount - 1 := by
      have hpos : s.loadCount ≠ 0 := fun h => hzero ⟨by decide, h⟩
      omega
    rw [hcast]

theorem setLoadbitResult_ok (s : ChipStatus) :
    s.setLoadbitResult DEVICE_STATUS_LOAD_OK =
      { s with loadStatus := DEVICE_STATUS_LOAD_OK, loadCount := (s.loadCount + 1) % 2 ^ 64 } := by
  rw [ChipStatus.setLoadbitResult, if_pos rfl, setLoadokCount_one]

/-- An unload. -/
theorem setLoadbitResult_wait (hbound : s.loadCount < 2 ^ 64) :
    s.setLoadbitResult DEVICE_STATUS_WAIT_LOAD =
      if s.loadCount - 1 = 0 then
        { s with loadStatus := DEVICE_STATUS_WAIT_LOAD, loadCount := s.loadCount - 1 }
      else
        { s with loadCount := s.loadCount - 1 } := by
  have hok : DEVICE_STATUS_WAIT_LOAD ≠ DEVICE_STATUS_LOAD_OK := by decide
  rw [ChipStatus.setLoadbitResult, if_neg hok, if_pos rfl, setLoadokCount_neg_one hbound]

theorem setLoadbitResult_other (hok : status ≠ DEVICE_STATUS_LOAD_OK)
    (hwait : status ≠ DEVICE_STATUS_WAIT_LOAD) :
    s.setLoadbitResult status = { s with loadStatus := status } := by
  rw [ChipStatus.setLoadbitResult, if_neg hok, if_neg hwait]

end Call

/-! ### The invariant -/

/-- What holds of a slot that has been loaded `oks` times. -/
structure SlotInv (oks : ℕ) (s : ChipStatus) : Prop where
  bound : s.loadCount < 2 ^ 64
  le : s.loadCount ≤ oks
  wait : s.loadStatus = DEVICE_STATUS_WAIT_LOAD → s.loadCount = 0
  ok : oks < 2 ^ 64 → s.loadStatus = DEVICE_STATUS_LOAD_OK → 0 < s.loadCount

theorem slotInv_start : SlotInv 0 .start :=
  ⟨by decide, le_refl 0, fun _ => rfl, fun _ h => absurd h (by decide)⟩

namespace SlotInv

variable {oks : ℕ} {s : ChipStatus} {status : ℤ}

theorem load (h : SlotInv oks s) :
    SlotInv (oks + 1) (s.setLoadbitResult DEVICE_STATUS_LOAD_OK) := by
  rw [setLoadbitResult_ok]
  have hok : DEVICE_STATUS_LOAD_OK ≠ DEVICE_STATUS_WAIT_LOAD := by decide
  refine ⟨Nat.mod_lt _ (Nat.two_pow_pos 64),
    (Nat.mod_le _ _).trans (Nat.succ_le_succ h.le), fun hwait => absurd hwait hok,
    fun hoks _ => ?_⟩
  have hsum : s.loadCount + 1 < 2 ^ 64 := (Nat.succ_le_succ h.le).trans_lt hoks
  exact (Nat.succ_pos _).trans_eq (Nat.mod_eq_of_lt hsum).symm

theorem unload (h : SlotInv oks s) :
    SlotInv oks (s.setLoadbitResult DEVICE_STATUS_WAIT_LOAD) := by
  have hwait : DEVICE_STATUS_WAIT_LOAD ≠ DEVICE_STATUS_LOAD_OK := by decide
  have hpred := Nat.sub_le s.loadCount 1
  rw [setLoadbitResult_wait h.bound]
  split_ifs with hzero
  · exact ⟨hpred.trans_lt h.bound, hpred.trans h.le, fun _ => hzero,
      fun _ hok => absurd hok hwait⟩
  · -- loads are left, so the slot was not waiting before
    refine ⟨hpred.trans_lt h.bound, hpred.trans h.le, fun hwait => ?_,
      fun _ _ => Nat.pos_of_ne_zero hzero⟩
    exact absurd (congrArg (· - 1) (h.wait hwait)) hzero

theorem other (h : SlotInv oks s) (hok : status ≠ DEVICE_STATUS_LOAD_OK)
    (hwait : status ≠ DEVICE_STATUS_WAIT_LOAD) : SlotInv oks (s.setLoadbitResult status) := by
  rw [setLoadbitResult_other hok hwait]
  exact ⟨h.bound, h.le, fun h' => absurd h' hwait, fun _ h' => absurd h' hok⟩

/-- After an unload the slot waits exactly when no load is left. -/
theorem unload_status (h : SlotInv oks s) :
    (s.setLoadbitResult DEVICE_STATUS_WAIT_LOAD).loadStatus = DEVICE_STATUS_WAIT_LOAD ↔
      (s.setLoadbitResult DEVICE_STATUS_WAIT_LOAD).loadCount = 0 := by
  refine ⟨h.unload.wait, fun hzero => ?_⟩
  rw [setLoadbitResult_wait h.bound] at hzero ⊢
  split_ifs at hzero ⊢ with hpred
  · rfl
  · exact absurd hzero hpred

end SlotInv

/-! ### Sequences of calls -/

section Calls

variable {calls : List (ℕ × ℤ)} {slot : ℕ} {chip : ℕ → ChipStatus}

/-- A call for a valid slot changes the entry of the slot. -/
theorem nsDownlinkSetLoadbitResult_valid (hslot : slot < MAX_FPGA_CARD_SLOT_NUM) (status : ℤ)
    (chip : ℕ → ChipStatus) :
    nsDownlinkSetLoadbitResult slot status chip =
      some (Function.update chip slot ((chip slot).setLoadbitResult status)) := by
  rw [nsDownlinkSetLoadbitResult, if_neg (Nat.not_lt.mpr hslot.le), if_neg hslot.ne]

theorem loadOks_cons (c : ℕ × ℤ) :
    loadOks (c :: calls) slot =
      (if c = (slot, DEVICE_STATUS_LOAD_OK) then 1 else 0) + loadOks calls slot := by
  rw [loadOks, List.count_cons, Nat.add_comm]
  simp only [beq_iff_eq, loadOks]

/-- The step: a call keeps the invariant of all slots. -/
theorem slotInv_update {oks : ℕ → ℕ} (h : ∀ slot, SlotInv (oks slot) (chip slot)) (called : ℕ)
    (status : ℤ) (slot : ℕ) :
    SlotInv (oks slot + if (called, status) = (slot, DEVICE_STATUS_LOAD_OK) then 1 else 0)
      (Function.update chip called ((chip called).setLoadbitResult status) slot) := by
  by_cases hcalled : slot = called
  · subst hcalled
    rw [Function.update_self]
    by_cases hok : status = DEVICE_STATUS_LOAD_OK
    · subst hok
      rw [if_pos rfl]
      exact (h slot).load
    rw [if_neg fun heq => hok (Prod.mk.inj heq).2, Nat.add_zero]
    by_cases hwait : status = DEVICE_STATUS_WAIT_LOAD
    · subst hwait
      exact (h slot).unload
    · exact (h slot).other hok hwait
  · rw [Function.update_of_ne hcalled,
      if_neg fun heq => hcalled (Prod.mk.inj heq).1.symm, Nat.add_zero]
    exact h slot

/-- **The run**: calls for valid slots have a result, and keep the invariant. -/
theorem afterCalls_valid {oks : ℕ → ℕ} (h : ∀ slot, SlotInv (oks slot) (chip slot))
    (hvalid : ∀ c ∈ calls, c.1 < MAX_FPGA_CARD_SLOT_NUM) :
    ∃ chip', afterCalls calls chip = some chip' ∧
      ∀ slot, SlotInv (oks slot + loadOks calls slot) (chip' slot) := by
  induction calls generalizing chip oks with
  | nil => exact ⟨chip, rfl, h⟩
  | cons c calls ih =>
    obtain ⟨hc, hrest⟩ := List.forall_mem_cons.mp hvalid
    obtain ⟨chip', hafter, hinv⟩ := ih (slotInv_update h c.1 c.2) hrest
    refine ⟨chip', ?_, fun slot => ?_⟩
    · rw [afterCalls, nsDownlinkSetLoadbitResult_valid hc]
      exact hafter
    · rw [loadOks_cons, ← Nat.add_assoc]
      exact hinv slot

/-- `n` successful loads of a slot. -/
theorem afterCalls_replicate (hslot : slot < MAX_FPGA_CARD_SLOT_NUM) (n : ℕ)
    (chip : ℕ → ChipStatus) :
    ∃ chip', afterCalls (List.replicate n (slot, DEVICE_STATUS_LOAD_OK)) chip = some chip' ∧
      (chip' slot).loadCount % 2 ^ 64 = ((chip slot).loadCount + n) % 2 ^ 64 ∧
      (0 < n → (chip' slot).loadCount < 2 ^ 64 ∧
        (chip' slot).loadStatus = DEVICE_STATUS_LOAD_OK) := by
  induction n generalizing chip with
  | zero => exact ⟨chip, rfl, rfl, fun h => absurd h (lt_irrefl 0)⟩
  | succ n ih =>
    obtain ⟨chip', hafter, hcount, hstatus⟩ := ih (Function.update chip slot
      ((chip slot).setLoadbitResult DEVICE_STATUS_LOAD_OK))
    rw [Function.update_self, setLoadbitResult_ok] at hcount
    refine ⟨chip', ?_, ?_, fun _ => ?_⟩
    · rw [List.replicate_succ, afterCalls, nsDownlinkSetLoadbitResult_valid hslot]
      exact hafter
    · rw [hcount, Nat.mod_add_mod, Nat.add_assoc, Nat.add_comm 1 n]
    · cases n with
      | zero =>
        obtain rfl := Option.some.inj hafter
        rw [Function.update_self, setLoadbitResult_ok]
        exact ⟨Nat.mod_lt _ (Nat.two_pow_pos 64), rfl⟩
      | succ n => exact hstatus (Nat.succ_pos n)

end Calls

/-- **The load status along a sequence of calls.** A slot is `DEVICE_STATUS_LOAD_OK` only while its
count is not zero, as long as it has been loaded less than `2 ^ 64` times; a further call does not
reach another slot; and an unload takes one off the count, stops at zero, and leaves the slot
waiting exactly when no load is left. -/
theorem afterCalls_loadStatus (calls : List (ℕ × ℤ)) (slot : ℕ)
    (hvalid : ∀ c ∈ calls, c.1 < MAX_FPGA_CARD_SLOT_NUM) (hslot : slot < MAX_FPGA_CARD_SLOT_NUM) :
    ∃ chip, afterCalls calls startSlots = some chip ∧
      (loadOks calls slot < 2 ^ 64 → (chip slot).loadStatus = DEVICE_STATUS_LOAD_OK →
        0 < (chip slot).loadCount) ∧
      ∀ status, ∃ chip', nsDownlinkSetLoadbitResult slot status chip = some chip' ∧
        (∀ other ≠ slot, chip' other = chip other) ∧
        (status = DEVICE_STATUS_WAIT_LOAD →
          (chip' slot).loadCount = (chip slot).loadCount - 1 ∧
            ((chip' slot).loadStatus = DEVICE_STATUS_WAIT_LOAD ↔
              (chip' slot).loadCount = 0)) := by
  obtain ⟨chip, hafter, hinv⟩ := afterCalls_valid (fun _ => slotInv_start) hvalid
  have hslotInv := hinv slot
  rw [Nat.zero_add] at hslotInv
  refine ⟨chip, hafter, hslotInv.ok, fun status => ⟨_,
    nsDownlinkSetLoadbitResult_valid hslot status chip,
    fun other hne => Function.update_of_ne hne _ _, ?_⟩⟩
  rintro rfl
  rw [Function.update_self]
  refine ⟨?_, hslotInv.unload_status⟩
  rw [setLoadbitResult_wait hslotInv.bound]
  split_ifs <;> rfl

theorem afterCalls_loadStatus_unloaded :
    ∃ chip, afterCalls [(2, DEVICE_STATUS_LOAD_OK), (2, DEVICE_STATUS_WAIT_LOAD)] startSlots =
        some chip ∧
      (loadOks [(2, DEVICE_STATUS_LOAD_OK), (2, DEVICE_STATUS_WAIT_LOAD)] 2 < 2 ^ 64 →
        (chip 2).loadStatus = DEVICE_STATUS_LOAD_OK → 0 < (chip 2).loadCount) ∧
      ∀ status, ∃ chip', nsDownlinkSetLoadbitResult 2 status chip = some chip' ∧
        (∀ other ≠ 2, chip' other = chip other) ∧
        (status = DEVICE_STATUS_WAIT_LOAD →
          (chip' 2).loadCount = (chip 2).loadCount - 1 ∧
            ((chip' 2).loadStatus = DEVICE_STATUS_WAIT_LOAD ↔ (chip' 2).loadCount = 0)) :=
  afterCalls_loadStatus [(2, DEVICE_STATUS_LOAD_OK), (2, DEVICE_STATUS_WAIT_LOAD)] 2
    (by decide) (by decide)

/-- **The counter wraps**: after `2 ^ 64` successful loads the slot is loaded, and its count zero.
-/
theorem afterCalls_loadCount_wraps :
    ∃ chip, afterCalls (List.replicate (2 ^ 64) (0, DEVICE_STATUS_LOAD_OK)) startSlots =
        some chip ∧
      (chip 0).loadStatus = DEVICE_STATUS_LOAD_OK ∧ ¬ 0 < (chip 0).loadCount := by
  have hslot : 0 < MAX_FPGA_CARD_SLOT_NUM := by decide
  obtain ⟨chip, hafter, hcount, hstatus⟩ :=
    afterCalls_replicate hslot (2 ^ 64) startSlots
  obtain ⟨hbound, hok⟩ := hstatus (Nat.two_pow_pos 64)
  have hstart : (startSlots 0).loadCount = 0 := rfl
  rw [Nat.mod_eq_of_lt hbound, hstart, Nat.zero_add, Nat.mod_self] at hcount
  exact ⟨chip, hafter, hok, Nat.not_lt.mpr hcount.le⟩

/-! ### The calls of a host -/

/-- The calls among the effects of a host. -/
def loadbitCalls (trace : List Event) : List (ℕ × ℤ) :=
  trace.filterMap fun e => if let .loadbitResult slot status := e then some (slot, status) else none

theorem afterCalls_append (calls later : List (ℕ × ℤ)) (chip : ℕ → ChipStatus) :
    afterCalls (calls ++ later) chip = (afterCalls calls chip).bind (afterCalls later) := by
  induction calls generalizing chip with
  | nil => rfl
  | cons c calls ih =>
    rw [List.cons_append, afterCalls, afterCalls, Option.bind_assoc]
    exact congrArg _ (funext ih)

/-- An unload of a bit file makes one call, for the slot of its chip, or none. -/
theorem loadbitCalls_unload (chip : ℕ) (h : Host) :
    loadbitCalls (m57StartUnloadBitfileFromFpga chip h).trace = loadbitCalls h.trace ∨
      loadbitCalls (m57StartUnloadBitfileFromFpga chip h).trace =
        loadbitCalls h.trace ++ [(cardSlotNum chip, DEVICE_STATUS_WAIT_LOAD)] := by
  have hread : loadbitCalls (regGetUnloadResult chip (h.writeXdmaData
      (m57AssambleLoadfileCmd chip 0x02)).2).2.trace = loadbitCalls h.trace := by
    unfold regGetUnloadResult
    cases regChip chip with
    | none => simp only [Host.writeXdmaData, Host.emit, loadbitCalls, List.filterMap_append,
        List.filterMap_cons_none, List.filterMap_nil, List.append_nil]
    | some _ => simp only [Host.writeXdmaData, Host.emit, loadbitCalls, List.filterMap_append,
        List.filterMap_cons_none, List.filterMap_nil, List.append_nil]
  unfold m57StartUnloadBitfileFromFpga
  dsimp only
  split_ifs with hunloaded
  · refine .inr ?_
    rw [← hread, Host.emit, loadbitCalls, List.filterMap_append]
    rfl
  · exact .inl hread

/-- An unload of a bit file reaches the slot of its chip only. -/
theorem afterCalls_unload (chip : ℕ) (h : Host) {before : ℕ → ChipStatus}
    (hbefore : afterCalls (loadbitCalls h.trace) startSlots = some before) :
    ∃ after, afterCalls (loadbitCalls (m57StartUnloadBitfileFromFpga chip h).trace) startSlots =
        some after ∧ ∀ other ≠ cardSlotNum chip, after other = before other := by
  have hslot : cardSlotNum chip < MAX_FPGA_CARD_SLOT_NUM :=
    (Nat.mod_lt _ (by decide)).trans (by decide : 8 < MAX_FPGA_CARD_SLOT_NUM)
  rcases loadbitCalls_unload chip h with hcalls | hcalls
  · rw [hcalls]
    exact ⟨before, hbefore, fun _ _ => rfl⟩
  · rw [hcalls, afterCalls_append, hbefore, Option.bind_some, afterCalls,
      nsDownlinkSetLoadbitResult_valid hslot]
    exact ⟨_, rfl, fun other hne => Function.update_of_ne hne _ _⟩

end M57Card.M57
