import M57Card.Lib.Intervals
import M57Card.Lib.Runs
import M57Card.Utils.MemoryPool

/-!
# The ranges of a memory pool

The blocks of a pool (`mempool.c`) are taken one by one with `memory_pool_alloc`, or several at a
time with `memory_pool_alloc_blocksize_num`, until `memory_pool_free` gives all of them back. Both
operations look only whether one block is left. Here the counters have their widths: `used_count` is
an `int`, and what is computed with `block_size` and `count` is a `size_t`.

Addresses are offsets from the start of the pool.

## Main definitions

* `Geometry` : a pool as it was created (`Geometry.Usual` where a block has a byte), `Pool` : what
  the operations change of it.
* `alloc`, `allocBlocksizeNum`, `free`, `poolEnd` : the model.
* `State` : a pool with the ranges that were handed out since the last `memory_pool_free`.
* `Right` : the ranges lie in the pool and are disjoint, and the counters agree with them.
* `Fits` : an operation takes no more blocks than are left.

## Main results

* `right_of_fits` : runs whose operations fit are right in every state, and only these.
* `alloc_toMemoryPool` : the pool without widths does what the pool does where an operation fits.
-/

namespace M57Card.PoolRanges

open Intervals

/-! ### The code -/

/-- A pool as `memory_pool_create` made it, on a machine with a `size_t` of `sizeBits` bits. -/
structure Geometry where
  sizeBits : ℕ
  blockSize : ℕ
  count : ℕ
  wide : 32 ≤ sizeBits
  blockSize_lt : blockSize < 2 ^ sizeBits
  count_lt : count < 2 ^ sizeBits

/-- What the operations change of a `memory_pool_t`. -/
structure Pool where
  emptyBlocks : ℕ
  usedCount : ℤ

variable (g : Geometry)

/-- The length of the piece of memory. -/
def Geometry.extent : ℕ := g.blockSize * g.count % 2 ^ g.sizeBits

/-- A block has a byte, and the piece is not longer than a `ptrdiff_t` can say: `malloc` gives
nothing longer. -/
def Geometry.Usual : Prop := 0 < g.blockSize ∧ g.extent < 2 ^ (g.sizeBits - 1)

/-- The conversion to `size_t`. -/
def Geometry.sizeT (x : ℤ) : ℕ := (x % 2 ^ g.sizeBits).toNat

/-- The conversion to `int`. -/
def toInt (x : ℤ) : ℤ := x.bmod (2 ^ 32)

/-- `memory_pool_alloc`. -/
def alloc (mp : Pool) : Option ℕ × Pool :=
  if g.sizeT mp.usedCount < g.count then
    (some mp.emptyBlocks, ⟨g.sizeT (mp.emptyBlocks + g.blockSize), toInt (mp.usedCount + 1)⟩)
  else (none, mp)

/-- `memory_pool_alloc_blocksize_num`. -/
def allocBlocksizeNum (mp : Pool) (blocksizeNum : ℕ) : Option ℕ × Pool :=
  if g.sizeT mp.usedCount < g.count then
    (some mp.emptyBlocks, ⟨g.sizeT (mp.emptyBlocks + g.sizeT (g.blockSize * blocksizeNum)),
      toInt (g.sizeT (g.sizeT mp.usedCount + blocksizeNum))⟩)
  else (none, mp)

/-- `memory_pool_free`. -/
def free : Pool := ⟨0, 0⟩

/-- `memory_pool_end`. -/
def poolEnd (mp : Pool) : ℕ := g.sizeT (g.sizeT mp.usedCount * g.blockSize)

/-! ### Runs -/

/-- The operations on a pool. -/
inductive Op
  | alloc
  | allocBlocksizeNum (blocksizeNum : ℕ)
  | free

/-- A pool, and the ranges handed out since the last `memory_pool_free`: start and length. -/
structure State where
  pool : Pool
  ranges : List (ℕ × ℕ)

/-- What an allocation of `n` blocks hands out. -/
def State.handOut (s : State) (r : Option ℕ × Pool) (n : ℕ) : State :=
  ⟨r.2, s.ranges ++ (r.1.map fun p => (p, n * g.blockSize)).toList⟩

/-- The state after an operation. -/
def step (s : State) : Op → State
  | .alloc => s.handOut g (alloc g s.pool) 1
  | .allocBlocksizeNum n => s.handOut g (allocBlocksizeNum g s.pool n) n
  | .free => ⟨free, []⟩

/-- The state of a new pool. -/
def start : State := ⟨free, []⟩

/-- The ranges lie in the pool and are disjoint, no more blocks are counted than there are, and
`memory_pool_end` is the end of the last range. -/
structure Right (s : State) : Prop where
  inside : ∀ r ∈ s.ranges, r.1 + r.2 ≤ g.extent
  disjoint : s.ranges.Pairwise fun r r' => Disjoint (span r) (span r')
  used_le : s.pool.usedCount ≤ g.count
  end_eq : ∀ r, s.ranges.getLast? = some r → poolEnd g s.pool = r.1 + r.2

/-- So many blocks are left behind the used ones, in number and in bytes, and the `int` can count
them. -/
def Room (s : State) (n : ℕ) : Prop :=
  s.pool.usedCount + n ≤ g.count ∧ s.pool.usedCount + n < 2 ^ 31 ∧
    (s.pool.usedCount + n) * g.blockSize ≤ g.extent

/-- An operation that passes the test for one block takes no more blocks than are left. -/
def Fits (s : State) : Op → Prop
  | .alloc => g.sizeT s.pool.usedCount < g.count → Room g s 1
  | .allocBlocksizeNum n => g.sizeT s.pool.usedCount < g.count → Room g s n
  | .free => True

instance (s : State) (n : ℕ) : Decidable (Room g s n) := inferInstanceAs (Decidable (_ ∧ _ ∧ _))

instance (s : State) : (op : Op) → Decidable (Fits g s op)
  | .alloc | .allocBlocksizeNum _ => inferInstanceAs (Decidable (_ → _))
  | .free => inferInstanceAs (Decidable True)

/-! ### Widths -/

variable {g}

theorem sizeT_of_lt {x : ℕ} (hx : x < 2 ^ g.sizeBits) : g.sizeT x = x := by
  have hlt : (x : ℤ) < 2 ^ g.sizeBits := by exact_mod_cast hx
  rw [Geometry.sizeT, Int.emod_eq_of_lt (Int.natCast_nonneg x) hlt, Int.toNat_natCast]

theorem cast_sizeT (x : ℤ) : (g.sizeT x : ℤ) = x % 2 ^ g.sizeBits := by
  have hpos : (0 : ℤ) < 2 ^ g.sizeBits := by positivity
  exact Int.toNat_of_nonneg (Int.emod_nonneg x hpos.ne')

theorem toInt_sizeT (x : ℤ) : toInt (g.sizeT x) = toInt x := by
  have hdvd : (2 : ℤ) ^ 32 ∣ 2 ^ g.sizeBits := pow_dvd_pow 2 g.wide
  rw [cast_sizeT, toInt, toInt, Int.bmod_def, Int.bmod_def]
  norm_num only [Nat.cast_pow, Nat.cast_ofNat] at hdvd ⊢
  rw [Int.emod_emod_of_dvd x hdvd]

theorem toInt_of_lt {x : ℕ} (hx : x < 2 ^ 31) : toInt x = x := by
  rw [toInt, Int.bmod_def]
  omega

theorem lt_two_pow {x : ℕ} (hx : x < 2 ^ 31) : x < 2 ^ g.sizeBits := by
  have hpow : 2 ^ 32 ≤ 2 ^ g.sizeBits := Nat.pow_le_pow_right (by omega) g.wide
  omega

theorem extent_lt_two_pow : g.extent < 2 ^ g.sizeBits := Nat.mod_lt _ (by positivity)

/-- A block is taken as one of several. -/
theorem alloc_eq (mp : Pool) : alloc g mp = allocBlocksizeNum g mp 1 := by
  have hone : g.sizeT (g.blockSize * (1 : ℕ)) = g.blockSize := by
    rw [Nat.cast_one, mul_one, sizeT_of_lt g.blockSize_lt]
  have hused : toInt (g.sizeT mp.usedCount + (1 : ℕ)) = toInt (mp.usedCount + 1) := by
    rw [Nat.cast_one]
    exact (Int.bmod_add_cancel_right 1).mpr (toInt_sizeT mp.usedCount)
  rw [alloc, allocBlocksizeNum, toInt_sizeT, hused, hone]

/-! ### One operation -/

/-- `u` blocks are taken, and lie one behind the other from the start of the pool. -/
structure Packed (g : Geometry) (s : State) (u : ℕ) : Prop where
  used : s.pool.usedCount = u
  empty : s.pool.emptyBlocks = u * g.blockSize
  ranges : EndToEnd 0 s.ranges (u * g.blockSize)
  le_count : u ≤ g.count
  lt : u < 2 ^ 31
  fit : u * g.blockSize ≤ g.extent

theorem packed_start : Packed g start 0 where
  used := rfl
  empty := (Nat.zero_mul _).symm
  ranges := by
    rw [Nat.zero_mul]
    exact .nil 0
  le_count := Nat.zero_le _
  lt := by omega
  fit := by
    rw [Nat.zero_mul]
    exact Nat.zero_le _

namespace Packed

variable {s : State} {u n : ℕ}

theorem sizeT_used (h : Packed g s u) : g.sizeT s.pool.usedCount = u := by
  rw [h.used]
  exact sizeT_of_lt (lt_two_pow h.lt)

theorem poolEnd_eq (h : Packed g s u) : poolEnd g s.pool = u * g.blockSize := by
  have hlt : u * g.blockSize < 2 ^ g.sizeBits := h.fit.trans_lt extent_lt_two_pow
  rw [poolEnd, h.sizeT_used]
  exact_mod_cast sizeT_of_lt hlt

theorem room_iff (h : Packed g s u) :
    Room g s n ↔ u + n ≤ g.count ∧ u + n < 2 ^ 31 ∧ (u + n) * g.blockSize ≤ g.extent := by
  rw [Room, h.used]
  norm_cast

theorem right (h : Packed g s u) : Right g s where
  inside := fun r hr => (h.ranges.le_of_mem hr).trans h.fit
  disjoint := h.ranges.pairwise_disjoint
  used_le := by
    rw [h.used]
    exact_mod_cast h.le_count
  end_eq := fun r hr => h.poolEnd_eq.trans (h.ranges.last_eq hr)

theorem step_of_le (h : Packed g s u) (hle : g.count ≤ u) :
    step g s (.allocBlocksizeNum n) = s := by
  have htest : ¬ g.sizeT s.pool.usedCount < g.count := by
    rw [h.sizeT_used]
    exact not_lt.mpr hle
  rw [step, allocBlocksizeNum, if_neg htest, State.handOut, Option.map_none, Option.toList_none,
    List.append_nil]

theorem step_of_lt (h : Packed g s u) (hlt : u < g.count) :
    step g s (.allocBlocksizeNum n) =
      ⟨⟨g.sizeT (u * g.blockSize + g.sizeT (g.blockSize * n)), toInt (u + n)⟩,
        s.ranges ++ [(u * g.blockSize, n * g.blockSize)]⟩ := by
  have htest : g.sizeT s.pool.usedCount < g.count := by rwa [h.sizeT_used]
  rw [step, allocBlocksizeNum, if_pos htest, State.handOut, toInt_sizeT, h.sizeT_used, h.empty]
  norm_cast

/-- An allocation of blocks that are left. -/
theorem step_of_room (h : Packed g s u) (hlt : u < g.count) (hroom : Room g s n) :
    Packed g (step g s (.allocBlocksizeNum n)) (u + n) := by
  obtain ⟨hcount, hint, hfit⟩ := h.room_iff.mp hroom
  have hsum : u * g.blockSize + n * g.blockSize = (u + n) * g.blockSize := (Nat.add_mul _ _ _).symm
  have hlength : g.sizeT (g.blockSize * n) = n * g.blockSize := by
    have hlen : n * g.blockSize < 2 ^ g.sizeBits := by
      have hextent : g.extent < 2 ^ g.sizeBits := extent_lt_two_pow
      omega
    rw [Nat.mul_comm] at hlen ⊢
    exact_mod_cast sizeT_of_lt hlen
  have hused : toInt ((u : ℤ) + (n : ℤ)) = ((u + n : ℕ) : ℤ) := by
    rw [← Nat.cast_add, toInt_of_lt hint]
  have hempty : g.sizeT (u * g.blockSize + (n * g.blockSize : ℕ)) = (u + n) * g.blockSize := by
    rw [← Nat.cast_mul, ← Nat.cast_add, hsum, sizeT_of_lt (hfit.trans_lt extent_lt_two_pow)]
  have hranges : EndToEnd 0 (s.ranges ++ [(u * g.blockSize, n * g.blockSize)])
      ((u + n) * g.blockSize) := by
    rw [← hsum]
    exact h.ranges.append (.cons (.nil _))
  rw [h.step_of_lt hlt, hlength]
  refine ⟨?_, hempty, hranges, hcount, hint, hfit⟩
  dsimp only
  exact hused

end Packed

/-! ### The counter at its width -/

/-- A count that the `int` cannot take has another end. -/
theorem sizeT_toInt_ne {v : ℕ} (hv : 2 ^ 31 ≤ v) (hg : g.Usual)
    (hfit : v * g.blockSize ≤ g.extent) :
    g.sizeT (g.sizeT (toInt v) * g.blockSize) ≠ v * g.blockSize := by
  intro heq
  have hcast : ((toInt v * g.blockSize) % 2 ^ g.sizeBits : ℤ) = v * g.blockSize := by
    have hnum : ((g.sizeT (g.sizeT (toInt v) * g.blockSize) : ℕ) : ℤ) = v * g.blockSize := by
      exact_mod_cast heq
    rwa [cast_sizeT, cast_sizeT, Int.mul_emod, Int.emod_emod, ← Int.mul_emod] at hnum
  have hdvd : (2 : ℤ) ^ g.sizeBits ∣ (v - toInt v) * g.blockSize := by
    rw [sub_mul, ← hcast]
    exact Int.dvd_emod_sub_self
  have hupper : toInt v < 2 ^ 31 := Int.bmod_lt (Nat.two_pow_pos 32)
  have hlower : -2 ^ 31 ≤ toInt v := Int.le_bmod (Nat.two_pow_pos 32)
  have hcount : (2 : ℤ) ^ 31 ≤ v := by exact_mod_cast hv
  have hblock' : (0 : ℤ) < g.blockSize := by exact_mod_cast hg.1
  have htop : (2 : ℤ) ^ g.sizeBits ≤ (v - toInt v) * g.blockSize :=
    Int.le_of_dvd (mul_pos (by linarith) hblock') hdvd
  have hhalf : 2 * (v * g.blockSize : ℤ) < 2 ^ g.sizeBits := by
    have hbits : g.sizeBits - 1 + 1 = g.sizeBits := Nat.sub_add_cancel (le_trans (by omega) g.wide)
    have hextent : v * g.blockSize < 2 ^ (g.sizeBits - 1) := hfit.trans_lt hg.2
    have hnum : 2 * (v * g.blockSize) < 2 ^ g.sizeBits := by
      rw [← hbits, pow_succ]
      omega
    exact_mod_cast hnum
  have hdouble : (v - toInt v) * g.blockSize ≤ 2 * v * (g.blockSize : ℤ) :=
    mul_le_mul_of_nonneg_right (by linarith) hblock'.le
  linarith

/-! ### Runs -/

theorem step_alloc (s : State) : step g s .alloc = step g s (.allocBlocksizeNum 1) := by
  rw [step, step, alloc_eq]

/-- Several blocks that fit keep the blocks together. -/
theorem Packed.step_of_fits {s : State} {u n : ℕ} (h : Packed g s u)
    (hfits : Fits g s (.allocBlocksizeNum n)) :
    ∃ u, Packed g (step g s (.allocBlocksizeNum n)) u := by
  by_cases hlt : u < g.count
  · exact ⟨u + n, h.step_of_room hlt (hfits (h.sizeT_used.trans_lt hlt))⟩
  · rw [h.step_of_le (not_lt.mp hlt)]
    exact ⟨u, h⟩

/-- An operation that fits keeps the blocks together. -/
theorem packed_step {s : State} {op : Op} (h : ∃ u, Packed g s u) (hfits : Fits g s op) :
    ∃ u, Packed g (step g s op) u := by
  obtain ⟨u, hu⟩ := h
  cases op with
  | alloc =>
    rw [step_alloc]
    exact hu.step_of_fits hfits
  | allocBlocksizeNum n => exact hu.step_of_fits hfits
  | free => exact ⟨0, packed_start⟩

/-- Several blocks fit when the pool is right with them. -/
theorem Packed.fits_of_right {s : State} {u n : ℕ} (h : Packed g s u) (hg : g.Usual)
    (hright : Right g (step g s (.allocBlocksizeNum n))) : Fits g s (.allocBlocksizeNum n) := by
  intro htest
  rw [h.step_of_lt (h.sizeT_used ▸ htest)] at hright
  have hsum : u * g.blockSize + n * g.blockSize = (u + n) * g.blockSize := (Nat.add_mul _ _ _).symm
  have hlast := List.getLast?_concat (l := s.ranges) (a := (u * g.blockSize, n * g.blockSize))
  have hfit : (u + n) * g.blockSize ≤ g.extent := by
    have hinside := hright.inside _ (List.mem_of_getLast? hlast)
    rwa [hsum] at hinside
  have hcount : u + n ≤ g.count := by
    by_contra hgt
    have hmod : g.extent ≤ g.blockSize * g.count := Nat.mod_le _ _
    have hmul := (Nat.mul_lt_mul_left hg.1).mpr (not_le.mp hgt)
    rw [Nat.mul_comm] at hfit
    omega
  have hint : u + n < 2 ^ 31 := by
    by_contra hge
    have hend := hright.end_eq _ hlast
    dsimp only [poolEnd] at hend
    rw [hsum, ← Nat.cast_add] at hend
    exact sizeT_toInt_ne (not_lt.mp hge) hg hfit hend
  exact h.room_iff.mpr ⟨hcount, hint, hfit⟩

/-- Behind an operation the pool is right exactly when the operation fits. -/
theorem right_step_iff {s : State} {op : Op} (h : ∃ u, Packed g s u) (hg : g.Usual) :
    Right g (step g s op) ↔ Fits g s op := by
  refine ⟨fun hright => ?_, fun hfits => ?_⟩
  · obtain ⟨u, hu⟩ := h
    cases op with
    | alloc =>
      rw [step_alloc] at hright
      exact hu.fits_of_right hg hright
    | allocBlocksizeNum n => exact hu.fits_of_right hg hright
    | free => exact trivial
  · obtain ⟨u, hu⟩ := packed_step h hfits
    exact hu.right

/-- Runs whose operations fit are right in every state, and in a usual pool only these are. -/
theorem right_of_fits (g : Geometry) (ops : List Op) :
    ((∀ pre op, pre ++ [op] <+: ops → Fits g (pre.foldl (step g) start) op) →
      ∀ pre, pre <+: ops → Right g (pre.foldl (step g) start)) ∧
    (g.Usual → (∀ pre, pre <+: ops → Right g (pre.foldl (step g) start)) →
      ∀ pre op, pre ++ [op] <+: ops → Fits g (pre.foldl (step g) start) op) := by
  constructor
  · intro hfits pre hpre
    obtain ⟨u, hu⟩ := forall_states_of (P := fun s => ∃ u, Packed g s u) ⟨0, packed_start⟩
      (fun s op => packed_step) hfits pre hpre
    exact hu.right
  · intro hg
    exact (forall_states_iff_of (P := fun s => ∃ u, Packed g s u) ⟨0, packed_start⟩
      (fun s hs => hs.elim fun u hu => hu.right) (fun s op => packed_step)
      (fun s op hs => right_step_iff hs hg) ops).mp

/-- Four blocks of eight bytes. -/
def fourBlocks : Geometry where
  sizeBits := 32
  blockSize := 8
  count := 4
  wide := by decide
  blockSize_lt := by decide
  count_lt := by decide

/-- Two operations that fit: one block, and then three. -/
theorem right_of_fits_threeBlocks :
    fourBlocks.Usual ∧
      Right fourBlocks ([.alloc, .allocBlocksizeNum 3].foldl (step fourBlocks) start) ∧
      ([.alloc, .allocBlocksizeNum 3].foldl (step fourBlocks) start).ranges =
        [(0, 8), (8, 24)] := by
  refine ⟨⟨by decide, by decide⟩,
    (right_of_fits fourBlocks [.alloc, .allocBlocksizeNum 3]).1 ?_ _ (List.prefix_refl _), ?_⟩
  · refine forall_step_cons.mpr ⟨?_, forall_step_cons.mpr ⟨?_, forall_step_nil⟩⟩
    · decide
    · decide
  · decide

/-- Five blocks from a pool of four lie outside of it. -/
theorem not_right_fiveBlocks :
    ¬ Right fourBlocks ([.allocBlocksizeNum 5].foldl (step fourBlocks) start) := by
  intro hright
  have hranges : ([.allocBlocksizeNum 5].foldl (step fourBlocks) start).ranges = [(0, 40)] := by
    decide
  have hinside := hright.inside (0, 40) (by rw [hranges]; exact List.mem_singleton_self _)
  revert hinside
  decide

/-! ### The pool without widths -/

/-- The pool as one without widths. -/
def Pool.toMemoryPool (g : Geometry) (mp : Pool) (m : Mem) : MemoryPool :=
  ⟨m, mp.emptyBlocks, mp.usedCount.toNat, g.blockSize, g.count⟩

/-- Where a block fits, the pool without widths hands out the same. -/
theorem alloc_toMemoryPool {s : State} {u : ℕ} (h : Packed g s u) (hfits : Fits g s .alloc)
    (m : Mem) :
    (s.pool.toMemoryPool g m).alloc =
      ((alloc g s.pool).1, (alloc g s.pool).2.toMemoryPool g m) := by
  have hmem : s.pool.toMemoryPool g m = ⟨m, u * g.blockSize, u, g.blockSize, g.count⟩ := by
    rw [Pool.toMemoryPool, h.used, h.empty, Int.toNat_natCast]
  by_cases hlt : u < g.count
  · have htest := h.sizeT_used.trans_lt hlt
    have hafter : Packed g (step g s .alloc) (u + 1) := by
      rw [step_alloc]
      exact h.step_of_room hlt (hfits htest)
    have hpool : (alloc g s.pool).2.toMemoryPool g m =
        ⟨m, (u + 1) * g.blockSize, u + 1, g.blockSize, g.count⟩ := by
      have hused : (alloc g s.pool).2.usedCount = (u + 1 : ℕ) := hafter.used
      have hempty : (alloc g s.pool).2.emptyBlocks = (u + 1) * g.blockSize := hafter.empty
      rw [Pool.toMemoryPool, hused, hempty, Int.toNat_natCast]
    have hstart : (alloc g s.pool).1 = some (u * g.blockSize) := by
      rw [alloc, if_pos htest, h.empty]
    rw [hmem, hpool, hstart, MemoryPool.alloc_of_lt hlt, Nat.succ_mul]
  · have htest : ¬ g.sizeT s.pool.usedCount < g.count := by rwa [h.sizeT_used]
    rw [alloc, if_neg htest, hmem, MemoryPool.alloc, if_neg hlt]

end M57Card.PoolRanges
