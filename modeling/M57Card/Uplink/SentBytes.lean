import M57Card.Lib.Totals
import M57Card.Uplink.SpmHash

/-!
# The bytes sent for a slot, a chip, a function or a priority

The key of an entry has the slot, the chip, the function and the priority in its bits (`bsp.h`,
lines 29–83). There are two functions that add up the bytes sent for the keys with a given field
(`net_thread.c`, lines 228–307): `get_send_bytes_by_type` decodes the slot of a key and compares it,
and `get_send_bytes_by_type_ex` masks the field, shifts it by an offset out of a table, and tests
whether it has a bit in common with the number that is asked for. The offsets of the table are not
the places of the fields but the numbers of their values: the field of a chip is shifted by 8, that
of a function by 32 and that of a priority by 8192, and the last two shifts of an `int` have no
defined result.

## Main definitions

* `HashmapType`, `HashmapType.idOf` : the fields of a key.
* `ofMatchTypeId`, `getSendBytesByType`, `getSendBytesByTypeEx`.
* `AnswersQueries` : what the queries for a field should answer.
* `NothingInCommon` : the tables for which they do.

## Main results

* `getSendBytesByTypeEx_of_match`, `getSendBytesByTypeEx_of_undefined` : the answer to a query.
* `answersQueries_iff` : the tables for which the queries are answered.
-/

namespace M57Card.Uplink

open Totals

/-! ### The fields of a key -/

/-- `CARD_SLOT_MASK`, `CARD_CHIP_MASK`, `CARD_FUNC_MASK`, `CARD_PRIO_MASK`. -/
def CARD_SLOT_MASK : ℕ := 2 ^ 3 - 1
def CARD_CHIP_MASK : ℕ := (2 ^ 2 - 1) * 2 ^ 3
def CARD_FUNC_MASK : ℕ := (2 ^ 8 - 1) * 2 ^ 5
def CARD_PRIO_MASK : ℕ := (2 ^ 1 - 1) * 2 ^ 13

/-- `GET_HASHMAP_SLOT_NUM`, `GET_HASHMAP_CHIP_NUM`, `GET_HASHMAP_FUNC_NUM`. -/
def GET_HASHMAP_SLOT_NUM : ℕ := 2 ^ 3
def GET_HASHMAP_CHIP_NUM : ℕ := 2 ^ 5
def GET_HASHMAP_FUNC_NUM : ℕ := 2 ^ 13

/-- `GET_HASHMAP_*_ADD_OFFSET`. -/
def GET_HASHMAP_SLOT_ADD_OFFSET : ℕ := 0
def GET_HASHMAP_CHIP_ADD_OFFSET : ℕ := GET_HASHMAP_SLOT_NUM
def GET_HASHMAP_FUNC_ADD_OFFSET : ℕ := GET_HASHMAP_CHIP_NUM
def GET_HASHMAP_PROI_ADD_OFFSET : ℕ := GET_HASHMAP_FUNC_NUM

/-- The bits of an `int` that a mask keeps. -/
def maskKey (key : ℤ) (mask : ℕ) : ℕ := (key % 2 ^ 32).toNat &&& mask

/-- `GET_SLOTID_BY_HASHID`. -/
def getSlotidByHashid (key : ℤ) : ℕ := maskKey key CARD_SLOT_MASK

/-- `GET_CHIPID_BY_HASHID`. -/
def getChipidByHashid (key : ℤ) : ℕ := maskKey key CARD_CHIP_MASK >>> 3

/-- `GET_FUNCID_BY_HASHID`. -/
def getFuncidByHashid (key : ℤ) : ℕ := maskKey key CARD_FUNC_MASK >>> 5

/-- `GET_PROIID_BY_HASHID`. -/
def getProiidByHashid (key : ℤ) : ℕ := maskKey key CARD_PRIO_MASK >>> 13

/-- `enum hashmap_type`, as far as the table of the query has it. -/
inductive HashmapType where
  | slot
  | chip
  | func
  | prio
  deriving DecidableEq

namespace HashmapType

/-- The number of values of a field. -/
def range : HashmapType → ℕ
  | slot => 2 ^ 3
  | chip => 2 ^ 2
  | func => 2 ^ 8
  | prio => 2 ^ 1

/-- The field of a key. -/
def idOf : HashmapType → ℤ → ℕ
  | slot => getSlotidByHashid
  | chip => getChipidByHashid
  | func => getFuncidByHashid
  | prio => getProiidByHashid

end HashmapType

/-! ### The queries -/

/-- `struct hash_type`. -/
structure HashType where
  type : HashmapType
  mask : ℕ
  offset : ℕ

/-- `_hash_type_table`. -/
def hashTypeTable : List HashType :=
  [⟨.slot, CARD_SLOT_MASK, GET_HASHMAP_SLOT_ADD_OFFSET⟩,
    ⟨.chip, CARD_CHIP_MASK, GET_HASHMAP_CHIP_ADD_OFFSET⟩,
    ⟨.func, CARD_FUNC_MASK, GET_HASHMAP_FUNC_ADD_OFFSET⟩,
    ⟨.prio, CARD_PRIO_MASK, GET_HASHMAP_PROI_ADD_OFFSET⟩]

/-- `_of_match_type_id`; without a result the shift of the `int` is not defined. The second operand
of `||` is false when the first one is reached with a `type_id` that is not zero. -/
def ofMatchTypeId (hashId : ℤ) (typeId offset mask : ℕ) : Option Bool :=
  if typeId = 0 then some (maskKey hashId mask == 0)
  else if offset < 32 then some ((maskKey hashId mask >>> offset) &&& typeId != 0)
  else none

section Queries

variable {V : Type}

/-- `get_send_bytes_by_type` on the table of the channel. -/
def getSendBytesByType (t : SpmHash V) (type : HashmapType) (id : ℕ) : ℕ :=
  t.forEach.foldl (fun sum e =>
    if type = .slot ∧ id = getSlotidByHashid e.1 then (sum + e.2.sendBytes) % 2 ^ 64 else sum) 0

/-- The body of the inner loop of `get_send_bytes_by_type_ex`. -/
def addMatching (type : HashmapType) (id : ℕ) (e : ℤ × HashData V) (sum : ℕ) (row : HashType) :
    Option ℕ :=
  if type ≠ row.type then some sum
  else (ofMatchTypeId e.1 id row.offset row.mask).map fun isMatch =>
    if isMatch then (sum + e.2.sendBytes) % 2 ^ 64 else sum

/-- `get_send_bytes_by_type_ex`. -/
def getSendBytesByTypeEx (t : SpmHash V) (type : HashmapType) (id : ℕ) : Option ℕ :=
  t.forEach.foldlM (fun sum e => hashTypeTable.foldlM (addMatching type id e) sum) 0

/-! ### What the queries should answer -/

/-- The bytes sent for the entries whose keys have a property, as a `uint64_t`. -/
def bytesWith (t : SpmHash V) (p : ℤ → Prop) [DecidablePred p] : ℕ :=
  totalOf (fun e : ℤ × HashData V => e.2.sendBytes) (fun e => p e.1) t.forEach % 2 ^ 64

/-- The bytes sent for all entries, as a `uint64_t`. -/
def bytesOfAll (t : SpmHash V) : ℕ := (t.forEach.map fun e => e.2.sendBytes).sum % 2 ^ 64

/-- The queries for a field answer with the bytes of the entries that have the value asked for; for
the slot both functions agree; and over all values of the field the answers add up to the bytes of
the table. -/
structure AnswersQueries (t : SpmHash V) (type : HashmapType) : Prop where
  answer : ∀ id < type.range,
    getSendBytesByTypeEx t type id = some (bytesWith t fun key => type.idOf key = id)
  agrees : type = .slot → ∀ id < type.range,
    getSendBytesByTypeEx t type id = some (getSendBytesByType t type id)
  total : ((List.range type.range).mapM (getSendBytesByTypeEx t type)).map
    (fun answers => answers.sum % 2 ^ 64) = some (bytesOfAll t)

/-- No query for the field can go wrong: for every slot asked for, no bytes were sent for other
slots that have a bit in common with it; no bytes were sent for a chip other than the chip 0; the
table has no entry whose function or priority would be shifted. -/
def NothingInCommon (t : SpmHash V) : HashmapType → Prop
  | .slot => ∀ id < 2 ^ 3,
      bytesWith t (fun key => ¬ getSlotidByHashid key = id ∧ getSlotidByHashid key &&& id ≠ 0) = 0
  | .chip => ∀ id < 2 ^ 2, id ≠ 0 → bytesWith t (fun key => getChipidByHashid key = id) = 0
  | .func => t.forEach = []
  | .prio => t.forEach = []

end Queries

/-! ### The bits of a field -/

/-- A mask whose bits start at `k` keeps a multiple of `2 ^ k`. -/
theorem and_mul_two_pow (x m k : ℕ) : x &&& (m * 2 ^ k) = ((x >>> k) &&& m) <<< k := by
  refine Nat.eq_of_testBit_eq fun i => ?_
  rw [Nat.testBit_and, Nat.testBit_mul_two_pow, Nat.testBit_shiftLeft, Nat.testBit_and,
    Nat.testBit_shiftRight]
  by_cases hi : k ≤ i
  · rw [Nat.add_sub_cancel' hi, decide_eq_true hi, Bool.true_and, Bool.true_and]
  · rw [decide_eq_false hi, Bool.false_and, Bool.false_and, Bool.and_false]

/-- A field is zero when its bits are. -/
theorem and_mul_two_pow_eq_zero_iff (x m k : ℕ) :
    x &&& (m * 2 ^ k) = 0 ↔ (x &&& (m * 2 ^ k)) >>> k = 0 := by
  rw [and_mul_two_pow, Nat.shiftLeft_shiftRight, Nat.shiftLeft_eq, mul_eq_zero,
    or_iff_left (Nat.two_pow_pos k).ne']

namespace HashmapType

/-- The row of a field. -/
def row : HashmapType → HashType
  | slot => ⟨.slot, CARD_SLOT_MASK, GET_HASHMAP_SLOT_ADD_OFFSET⟩
  | chip => ⟨.chip, CARD_CHIP_MASK, GET_HASHMAP_CHIP_ADD_OFFSET⟩
  | func => ⟨.func, CARD_FUNC_MASK, GET_HASHMAP_FUNC_ADD_OFFSET⟩
  | prio => ⟨.prio, CARD_PRIO_MASK, GET_HASHMAP_PROI_ADD_OFFSET⟩

theorem idOf_lt_range (type : HashmapType) (key : ℤ) : type.idOf key < type.range := by
  have hle (mask k : ℕ) : maskKey key mask >>> k ≤ mask >>> k := by
    rw [Nat.shiftRight_eq_div_pow, Nat.shiftRight_eq_div_pow]
    exact Nat.div_le_div_right Nat.and_le_right
  cases type with
  | slot => exact Nat.lt_succ_of_le Nat.and_le_right
  | chip => exact Nat.lt_succ_of_le (hle _ 3)
  | func => exact Nat.lt_succ_of_le (hle _ 5)
  | prio => exact Nat.lt_succ_of_le (hle _ 13)

/-- The bits of a field are zero exactly when the field is. -/
theorem maskKey_eq_zero_iff (type : HashmapType) (key : ℤ) :
    maskKey key type.row.mask = 0 ↔ type.idOf key = 0 := by
  cases type with
  | slot => exact Iff.rfl
  | chip => exact and_mul_two_pow_eq_zero_iff _ _ 3
  | func => exact and_mul_two_pow_eq_zero_iff _ _ 5
  | prio => exact and_mul_two_pow_eq_zero_iff _ _ 13

end HashmapType

/-! ### The answer to a query -/

section Answer

variable {V : Type} {t : SpmHash V} {type : HashmapType} {id : ℕ}

theorem addMatching_of_ne {row : HashType} (h : type ≠ row.type) (e : ℤ × HashData V) (sum : ℕ) :
    addMatching type id e sum row = some sum := if_pos h

/-- Only the row of the field counts. -/
theorem foldlM_hashTypeTable (e : ℤ × HashData V) (sum : ℕ) :
    hashTypeTable.foldlM (addMatching type id e) sum = addMatching type id e sum type.row := by
  cases type with
  | slot => simp [hashTypeTable, addMatching_of_ne, HashmapType.row]
  | chip => simp [hashTypeTable, addMatching_of_ne, HashmapType.row]
  | func => simp [hashTypeTable, addMatching_of_ne, HashmapType.row]
  | prio => simp [hashTypeTable, addMatching_of_ne, HashmapType.row]

/-- Where the match has a result for every entry, the query answers with the bytes of the entries
that match. -/
theorem getSendBytesByTypeEx_of_match {p : ℤ → Prop} [DecidablePred p]
    (h : ∀ key, ofMatchTypeId key id type.row.offset type.row.mask = some (decide (p key))) :
    getSendBytesByTypeEx t type id = some (bytesWith t p) := by
  have hloop (l : List (ℤ × HashData V)) (sum : ℕ) :
      l.foldlM (fun sum e => hashTypeTable.foldlM (addMatching type id e) sum) sum =
        some (l.foldl
          (fun sum e => if p e.1 then (sum + e.2.sendBytes) % 2 ^ 64 else sum) sum) := by
    induction l generalizing sum with
    | nil => rfl
    | cons e l ih =>
      have hrow : type.row.type = type := by cases type <;> rfl
      rw [List.foldlM_cons, foldlM_hashTypeTable, addMatching, if_neg (not_not.mpr hrow.symm), h,
        Option.map_some, List.foldl_cons, ← ih]
      simp only [decide_eq_true_eq, Option.bind_eq_bind, Option.bind_some]
  rw [getSendBytesByTypeEx, hloop, foldl_ite_add_mod _ (Nat.two_pow_pos 64), Nat.zero_add]
  rfl

/-- Where the match of every entry has no result, only an empty table has an answer. -/
theorem getSendBytesByTypeEx_of_undefined
    (h : ∀ key, ofMatchTypeId key id type.row.offset type.row.mask = none)
    (ht : t.forEach ≠ []) : getSendBytesByTypeEx t type id = none := by
  obtain ⟨e, l, hl⟩ := List.exists_cons_of_ne_nil ht
  have hrow : type.row.type = type := by cases type <;> rfl
  rw [getSendBytesByTypeEx, hl, List.foldlM_cons, foldlM_hashTypeTable, addMatching,
    if_neg (not_not.mpr hrow.symm), h]
  rfl

/-- The number zero is compared. -/
theorem ofMatchTypeId_zero (type : HashmapType) (key : ℤ) :
    ofMatchTypeId key 0 type.row.offset type.row.mask = some (decide (type.idOf key = 0)) := by
  rw [ofMatchTypeId, if_pos rfl, ← decide_eq_decide.mpr (type.maskKey_eq_zero_iff key)]
  rfl

/-- Another number of a slot is tested for a common bit. -/
theorem ofMatchTypeId_slot (hid : id ≠ 0) (key : ℤ) :
    ofMatchTypeId key id HashmapType.slot.row.offset HashmapType.slot.row.mask =
      some (decide (getSlotidByHashid key &&& id ≠ 0)) := by
  have hoffset : HashmapType.slot.row.offset < 32 := by decide
  rw [ofMatchTypeId, if_neg hid, if_pos hoffset, decide_not]
  rfl

/-- Another number of a chip never matches: no bit of the field is left by the shift. -/
theorem ofMatchTypeId_chip (hid : id ≠ 0) (key : ℤ) :
    ofMatchTypeId key id HashmapType.chip.row.offset HashmapType.chip.row.mask =
      some (decide False) := by
  have hoffset : HashmapType.chip.row.offset < 32 := by decide
  have hshift : maskKey key HashmapType.chip.row.mask >>> HashmapType.chip.row.offset = 0 := by
    have hle : maskKey key CARD_CHIP_MASK ≤ CARD_CHIP_MASK := Nat.and_le_right
    rw [Nat.shiftRight_eq_div_pow]
    exact Nat.div_eq_of_lt (hle.trans_lt (by decide))
  rw [ofMatchTypeId, if_neg hid, if_pos hoffset, hshift, Nat.zero_and]
  rfl

/-- Any other shift is not defined. -/
theorem ofMatchTypeId_undefined (hid : id ≠ 0) (hoffset : ¬ type.row.offset < 32) (key : ℤ) :
    ofMatchTypeId key id type.row.offset type.row.mask = none := by
  rw [ofMatchTypeId, if_neg hid, if_neg hoffset]

/-! ### All queries for a field -/

theorem bytesWith_congr {p q : ℤ → Prop} [DecidablePred p] [DecidablePred q]
    (h : ∀ key, p key ↔ q key) : bytesWith t p = bytesWith t q :=
  congrArg (· % 2 ^ 64) (totalOf_congr _ fun e _ => h e.1)

theorem bytesWith_false : bytesWith t (fun _ => False) = 0 :=
  congrArg (· % 2 ^ 64) (totalOf_eq_zero _ fun _ _ h => h)

/-- A stronger property selects the same bytes when the rest has none. -/
theorem bytesWith_eq_iff {p q : ℤ → Prop} [DecidablePred p] [DecidablePred q]
    (h : ∀ key, q key → p key) :
    bytesWith t p = bytesWith t q ↔ bytesWith t (fun key => ¬ q key ∧ p key) = 0 := by
  have hadd := totalOf_eq_add (fun e : ℤ × HashData V => e.2.sendBytes) (l := t.forEach)
    (p := fun e => p e.1) (q := fun e => q e.1) fun e _ => h e.1
  have hrest : bytesWith t (fun key => ¬ q key ∧ p key) =
      totalOf (fun e : ℤ × HashData V => e.2.sendBytes) (fun e => ¬ q e.1 ∧ p e.1) t.forEach %
        2 ^ 64 := rfl
  rw [hrest, bytesWith, bytesWith, hadd]
  omega

theorem getSendBytesByType_slot (id : ℕ) :
    getSendBytesByType t .slot id = bytesWith t fun key => getSlotidByHashid key = id := by
  have hloop := foldl_ite_add_mod (fun e : ℤ × HashData V => e.2.sendBytes)
    (p := fun e => getSlotidByHashid e.1 = id) (Nat.two_pow_pos 64) t.forEach
  rw [Nat.zero_add] at hloop
  rw [getSendBytesByType]
  simp only [true_and, eq_comm (a := id)]
  exact hloop

theorem mapM_of_some {α β : Type} {f : α → Option β} {g : α → β} {l : List α}
    (h : ∀ a ∈ l, f a = some (g a)) : l.mapM f = some (l.map g) := by
  induction l with
  | nil => rfl
  | cons a l ih =>
    obtain ⟨ha, hl⟩ := List.forall_mem_cons.mp h
    rw [List.mapM_cons, ha, ih hl]
    rfl

/-- The answers are right once each of them is. -/
theorem answersQueries_of_answer (h : ∀ id < type.range,
    getSendBytesByTypeEx t type id = some (bytesWith t fun key => type.idOf key = id)) :
    AnswersQueries t type := by
  refine ⟨h, ?_, ?_⟩
  · rintro rfl id hid
    rw [h id hid, getSendBytesByType_slot]
    rfl
  · have hsum := sum_range_totalOf (fun e : ℤ × HashData V => e.2.sendBytes) (l := t.forEach)
      (c := fun e => type.idOf e.1) fun e _ => type.idOf_lt_range e.1
    rw [mapM_of_some fun id hid => h id (List.mem_range.mp hid), Option.map_some, bytesOfAll,
      ← hsum]
    refine congrArg some ?_
    conv_rhs => rw [List.sum_nat_mod, List.map_map]
    rfl

/-- **The tables for which the queries are answered.** -/
theorem answersQueries_iff (t : SpmHash V) (type : HashmapType) :
    AnswersQueries t type ↔ NothingInCommon t type := by
  have hzero : getSendBytesByTypeEx t type 0 =
      some (bytesWith t fun key => type.idOf key = 0) :=
    getSendBytesByTypeEx_of_match (ofMatchTypeId_zero type)
  -- a shift that is not defined
  have hundefined (hoffset : ¬ type.row.offset < 32) (hone : 1 < type.range) :
      AnswersQueries t type ↔ t.forEach = [] := by
    constructor
    · intro h
      by_contra hne
      have hanswer := h.answer 1 hone
      rw [getSendBytesByTypeEx_of_undefined (ofMatchTypeId_undefined Nat.one_ne_zero hoffset) hne]
        at hanswer
      cases hanswer
    · intro hempty
      refine answersQueries_of_answer fun id _ => ?_
      rw [getSendBytesByTypeEx, bytesWith, hempty]
      rfl
  cases type with
  | slot =>
    -- a slot that has the number asked for has a bit in common with it
    have hslot {id : ℕ} (hid : id ≠ 0) :
        getSendBytesByTypeEx t .slot id = some (bytesWith t fun key => getSlotidByHashid key = id) ↔
          bytesWith t (fun key => ¬ getSlotidByHashid key = id ∧
            getSlotidByHashid key &&& id ≠ 0) = 0 := by
      rw [getSendBytesByTypeEx_of_match (ofMatchTypeId_slot hid), Option.some_inj]
      refine bytesWith_eq_iff fun key hkey => ?_
      rwa [hkey, Nat.and_self]
    constructor
    · intro h id hid
      rcases eq_or_ne id 0 with rfl | hne
      · exact (bytesWith_congr fun key =>
          iff_of_false (fun hbits => hbits.2 (Nat.and_zero _)) not_false).trans bytesWith_false
      · exact (hslot hne).mp (h.answer id hid)
    · intro h
      refine answersQueries_of_answer fun id hid => ?_
      rcases eq_or_ne id 0 with rfl | hne
      · exact hzero
      · exact (hslot hne).mpr (h id hid)
  | chip =>
    have hchip {id : ℕ} (hid : id ≠ 0) : getSendBytesByTypeEx t .chip id = some 0 := by
      rw [getSendBytesByTypeEx_of_match (ofMatchTypeId_chip hid), bytesWith_false]
    constructor
    · intro h id hid hne
      exact (Option.some.inj ((hchip hne).symm.trans (h.answer id hid))).symm
    · intro h
      refine answersQueries_of_answer fun id hid => ?_
      rcases eq_or_ne id 0 with rfl | hne
      · exact hzero
      · rw [hchip hne]
        exact congrArg some (h id hid hne).symm
  | func => exact hundefined (by decide) (by decide)
  | prio => exact hundefined (by decide) (by decide)

end Answer

/-- After 102 bytes have been sent for the slot 5, a query for the slot 1 answers with them. -/
theorem not_answersQueries_slot :
    ¬ AnswersQueries (spmHashSetSendbytes (spmHashRenew spmHashCreate 5 (0 : ℕ)).1 5 102)
      .slot := by
  intro h
  have hone := h.agrees rfl 1 (by decide)
  revert hone
  decide

end M57Card.Uplink
