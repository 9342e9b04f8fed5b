import M57Card.Lib.Memory

/-!
# Memory pools

A memory pool (`mempool.c`) is one piece of memory, from which blocks are taken one behind the
other. The size of a block is the distance between two blocks that are taken, and also the distance
between blocks for a reader; it can be changed at any time, and stays when the pool is freed.

Addresses are offsets from the start of the pool.

## Main definitions

* `MemoryPool` with `create`, `alloc`, `writeValue`, `setPoolStep`, `free` : the model.
* `MemoryPool.Fresh` : no block is taken.

## Main results

* `MemoryPool.Fresh.alloc` : the next block of a pool.
-/

namespace M57Card

/-- `memory_pool_t`, without its attribute. -/
structure MemoryPool where
  pool : Mem
  emptyBlocks : ℕ
  usedCount : ℕ
  blockSize : ℕ
  count : ℕ

namespace MemoryPool

/-- `memory_pool_create`. -/
def create (bs c : ℕ) : MemoryPool := ⟨fun _ => 0, 0, 0, bs, c⟩

/-- `memory_pool_alloc`. -/
def alloc (mp : MemoryPool) : Option ℕ × MemoryPool :=
  if mp.usedCount < mp.count then
    (some mp.emptyBlocks,
      { mp with emptyBlocks := mp.emptyBlocks + mp.blockSize, usedCount := mp.usedCount + 1 })
  else (none, mp)

/-- `memory_pool_write_value` to a block of the pool, with `n` bytes of `src` from `p` on. -/
def writeValue (mp : MemoryPool) (addr : Option ℕ) (src : Mem) (p n : ℕ) : MemoryPool :=
  match addr with
  | none => mp
  | some a => { mp with pool := mp.pool.write a src p n }

/-- `memory_pool_set_pool_step`. -/
def setPoolStep (mp : MemoryPool) (size : ℕ) : MemoryPool := { mp with blockSize := size }

/-- `memory_pool_free`. -/
def free (mp : MemoryPool) : MemoryPool :=
  { mp with
    usedCount := 0
    pool := fun q => if q < mp.blockSize * mp.count then 0 else mp.pool q
    emptyBlocks := 0 }

/-- The number of rounds of a loop from `memory_pool_first` to `memory_pool_end` in steps of
`memory_pool_step`. -/
def rounds (mp : MemoryPool) : ℕ := if mp.blockSize = 0 then 0 else mp.usedCount

/-- No block of the pool is taken. -/
structure Fresh (mp : MemoryPool) : Prop where
  emptyBlocks : mp.emptyBlocks = 0
  usedCount : mp.usedCount = 0

theorem fresh_create (bs c : ℕ) : (create bs c).Fresh := ⟨rfl, rfl⟩

theorem fresh_free (mp : MemoryPool) : mp.free.Fresh := ⟨rfl, rfl⟩

theorem alloc_of_lt {mp : MemoryPool} (h : mp.usedCount < mp.count) :
    mp.alloc = (some mp.emptyBlocks, { mp with
      emptyBlocks := mp.emptyBlocks + mp.blockSize, usedCount := mp.usedCount + 1 }) :=
  if_pos h

/-- `n` bytes at `p`, `p + step`, … of `src` are written to the next blocks of the pool. -/
def writeBlocks (mp : MemoryPool) (src : Mem) (p step n : ℕ) : ℕ → MemoryPool
  | 0 => mp
  | k + 1 =>
      let mp := mp.writeBlocks src p step n k
      mp.alloc.2.writeValue mp.alloc.1 src (p + k * step) n

variable {mp : MemoryPool} {src : Mem} {p step n : ℕ}

theorem count_writeBlocks (mp : MemoryPool) (src : Mem) (p step n k : ℕ) :
    (mp.writeBlocks src p step n k).count = mp.count := by
  induction k with
  | zero => rfl
  | succ k ih =>
    rw [writeBlocks, alloc]
    split_ifs
    · exact ih
    · exact ih

/-- Blocks that are written to a fresh pool stand there with the size of a block as stride. -/
theorem Fresh.writeBlocks (h : mp.Fresh) (hn : n ≤ mp.blockSize) {k : ℕ} (hk : k ≤ mp.count) :
    mp.writeBlocks src p step n k =
      { mp with
        pool := fun q => if q / mp.blockSize < k ∧ q % mp.blockSize < n then
          src (p + q / mp.blockSize * step + q % mp.blockSize) else mp.pool q
        emptyBlocks := k * mp.blockSize
        usedCount := k } := by
  induction k with
  | zero =>
    obtain ⟨hempty, hused⟩ := h
    obtain ⟨pool, empty, used, size, count⟩ := mp
    simp only at hempty hused
    subst hempty
    subst hused
    simp [MemoryPool.writeBlocks]
  | succ k ih =>
    rw [MemoryPool.writeBlocks, ih (by omega), alloc_of_lt (Nat.lt_of_succ_le hk), writeValue]
    congr 1
    · funext q
      simp only [Mem.write, Mem.mem_piece_iff hn]
      by_cases hpiece : q / mp.blockSize = k ∧ q % mp.blockSize < n
      · have hdiv := Nat.div_add_mod' q mp.blockSize
        obtain ⟨hquot, hmod⟩ := hpiece
        rw [hquot] at hdiv
        have hoff : q - k * mp.blockSize = q % mp.blockSize := by omega
        rw [if_pos ⟨hquot, hmod⟩, if_pos ⟨by omega, hmod⟩, hquot, hoff]
      · rw [if_neg hpiece]
        refine if_congr ?_ rfl rfl
        omega
    · simp only
      rw [Nat.succ_mul]

end MemoryPool

end M57Card
