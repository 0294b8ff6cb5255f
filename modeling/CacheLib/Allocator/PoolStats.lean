/-
The slabs in the statistics of a pool: `MemoryPool::getStats`
(`cachelib/allocator/memory/MemoryPool.cpp`).

The unallocated slabs are what the limit of the pool leaves besides the allocated and the advised
slabs, less the pool's own free slabs. The limit can be made smaller at any time, also when the
free slabs do not fit any more.
-/
import CacheLib.Allocator.SlabConservation

set_option autoImplicit false

namespace CacheLib

open AllocationClass (Slab)

namespace MemoryPool

def getUnAllocatedSlabMemory (p : MemoryPool) : UInt64 :=
  let totalAllocSize := p.currSlabAllocSize + p.getPoolAdvisedSize
  if p.maxSize < totalAllocSize then 0 else p.maxSize - totalAllocSize

/-- `slabsUnAllocated` of `getStats` -/
def slabsUnAllocated (p : MemoryPool) : UInt64 :=
  let availableMemory := p.getUnAllocatedSlabMemory
  if 0 < availableMemory then availableMemory / kSlabSize - UInt64.ofNat p.freeSlabs.length else 0

/-- The unallocated slabs are within the limit, and with the others they are within the limit or the
slabs of the pool. -/
def ReportsAtMost (p : MemoryPool) (slabs : ℕ) : Prop :=
  p.slabsUnAllocated.toNat ≤ p.maxSize.toNat / Slab.kSize ∧
    p.held.length + p.curSlabsAdvised.toNat + p.slabsUnAllocated.toNat
      ≤ max (p.maxSize.toNat / Slab.kSize) slabs

/-- The slabs that count for the limit -/
def counted (p : MemoryPool) : ℕ := p.classSlabs.length + p.curSlabsAdvised.toNat

variable {p : MemoryPool}

theorem toNat_kSlabSize : kSlabSize.toNat = Slab.kSize :=
  UInt64.toNat_ofNat_of_lt' (by decide)

theorem toNat_getUnAllocatedSlabMemory
    (hcounted : p.currSlabAllocSize.toNat = Slab.kSize * p.classSlabs.length)
    (hfits : Slab.kSize * p.counted < 2 ^ 64) :
    p.getUnAllocatedSlabMemory.toNat = p.maxSize.toNat - Slab.kSize * p.counted := by
  have htotal : (p.currSlabAllocSize + p.getPoolAdvisedSize).toNat = Slab.kSize * p.counted := by
    rw [counted, Nat.mul_add] at hfits ⊢
    rw [getPoolAdvisedSize, UInt64.toNat_add, UInt64.toNat_mul, toNat_kSlabSize, hcounted,
      Nat.mod_eq_of_lt (a := _ * _) (by omega), Nat.mod_eq_of_lt hfits]
  rw [getUnAllocatedSlabMemory]
  split
  · next hlt =>
      rw [UInt64.lt_iff_toNat_lt, htotal] at hlt
      rw [UInt64.toNat_zero]
      omega
  · next hge =>
      rw [UInt64.not_lt] at hge
      rw [UInt64.toNat_sub_of_le _ _ hge, htotal]

/-- The subtraction of the free slabs wraps if they do not fit. -/
theorem toNat_slabsUnAllocated
    (hcounted : p.currSlabAllocSize.toNat = Slab.kSize * p.classSlabs.length)
    (hfits : Slab.kSize * (p.counted + p.freeSlabs.length) < 2 ^ 64) :
    p.slabsUnAllocated.toNat = if p.maxSize.toNat ≤ Slab.kSize * p.counted then 0
      else (2 ^ 64 - p.freeSlabs.length + (p.maxSize.toNat - Slab.kSize * p.counted) / Slab.kSize)
        % 2 ^ 64 := by
  rw [Nat.mul_add] at hfits
  have hmemory := toNat_getUnAllocatedSlabMemory hcounted (by omega)
  have hpos : 0 < Slab.kSize := by decide
  have hle := Nat.le_mul_of_pos_left p.freeSlabs.length hpos
  have hfree : p.freeSlabs.length < 2 ^ 64 := by omega
  have hsome : 0 < p.getUnAllocatedSlabMemory ↔ ¬ p.maxSize.toNat ≤ Slab.kSize * p.counted := by
    rw [UInt64.lt_iff_toNat_lt, hmemory, UInt64.toNat_zero]
    omega
  rw [slabsUnAllocated]
  by_cases hle : p.maxSize.toNat ≤ Slab.kSize * p.counted
  · rw [if_pos hle, if_neg (hsome.not.mpr (not_not.mpr hle)), UInt64.toNat_zero]
  · rw [if_neg hle, if_pos (hsome.mpr hle), UInt64.toNat_sub, UInt64.toNat_div, hmemory,
      toNat_kSlabSize, UInt64.toNat_ofNat_of_lt' hfree]

/-- For a pool whose counters are right, and a number of its slabs. -/
theorem reportsAtMost_iff_of_counted
    (hcounted : p.currSlabAllocSize.toNat = Slab.kSize * p.classSlabs.length)
    (hfits : Slab.kSize * (p.counted + p.freeSlabs.length) < 2 ^ 64) {slabs : ℕ}
    (hslabs : slabs ≤ p.counted + p.freeSlabs.length) :
    p.ReportsAtMost slabs ↔
      (p.maxSize.toNat ≤ Slab.kSize * p.counted ∧ slabs = p.counted + p.freeSlabs.length) ∨
        Slab.kSize * (p.counted + p.freeSlabs.length) ≤ p.maxSize.toNat := by
  have hreported := toNat_slabsUnAllocated hcounted hfits
  have hheld : p.held.length + p.curSlabsAdvised.toNat = p.counted + p.freeSlabs.length := by
    rw [MemoryAllocator.length_held, counted]
    omega
  have hmax := p.maxSize.toNat_lt
  rw [ReportsAtMost, hheld, hreported]
  generalize p.counted = n at *
  generalize p.maxSize.toNat = size at *
  generalize p.freeSlabs.length = f at *
  rw [show Slab.kSize = 4194304 from rfl] at *
  split
  · omega
  · omega

end MemoryPool

namespace MemoryAllocator

open Transition

section Runs

variable {memory : SlabMemory} {allocSizes : List ℕ} {ls : List Label} {m : MemoryAllocator}

/-- **When the statistics are right.** In every run without a disturbed release, and in which a pool
has released none of its own free slabs: exactly if its limit is reached without the free slabs or
not exceeded with them. The pool's count of its advised slabs is taken as it is. It wraps when the
pool reclaims slabs that others advised away, and then the bytes it stands for may not fit. -/
theorem reportsAtMost_iff (hrun : exec step (init memory allocSizes) ls = some m)
    (hC : Along step (fun m l => m.undisturbed l = true) (init memory allocSizes) ls) {id : ℕ}
    {pool : MemoryPool} (hpool : m.pools[id]? = some pool)
    (hfree : Along step (fun m l => recorded (.fromFree id) m l = 0) (init memory allocSizes) ls)
    (hfits : Slab.kSize * (pool.counted + pool.freeSlabs.length) < 2 ^ 64) :
    (pool.ReportsAtMost (pool.held.length + pool.curSlabsAdvised.toNat) ↔
      pool.maxSize.toNat ≤ Slab.kSize * pool.counted ∨
        Slab.kSize * (pool.counted + pool.freeSlabs.length) ≤ pool.maxSize.toNat) ∧
    (pool.ReportsAtMost pool.held.length ↔
      (pool.maxSize.toNat ≤ Slab.kSize * pool.counted ∧ pool.curSlabsAdvised = 0) ∨
        Slab.kSize * (pool.counted + pool.freeSlabs.length) ≤ pool.maxSize.toNat) := by
  have hinv := slab_counters_of_undisturbed hrun hC
  have hheld := length_held pool
  have hcounted : pool.currSlabAllocSize.toNat = Slab.kSize * pool.classSlabs.length := by
    have hbytes := hinv.counted hpool
    rw [tally_eq_zero hfree] at hbytes
    have hexact : pool.currSlabAllocSize = slabBytes pool.classSlabs.length :=
      (UInt64.add_zero _).symm.trans hbytes
    have hle := hinv.length_held_le hpool
    rw [hexact, toNat_slabBytes (a := m.slabs) (by omega)]
  have hzero : pool.curSlabsAdvised = 0 ↔ pool.curSlabsAdvised.toNat = 0 := by
    rw [← UInt64.toNat_inj, UInt64.toNat_zero]
  rw [MemoryPool.reportsAtMost_iff_of_counted hcounted hfits (by rw [MemoryPool.counted]; omega),
    MemoryPool.reportsAtMost_iff_of_counted hcounted hfits (by rw [MemoryPool.counted]; omega), hzero,
    MemoryPool.counted]
  constructor
  · omega
  · omega

theorem reportsAtMost_iff_slabTaken :
    ∃ m pool, exec step (init oneSlab [Slab.kSize]) slabTaken = some m ∧
      m.pools[0]? = some pool ∧ pool.ReportsAtMost pool.held.length := by
  obtain ⟨m, hrun, pool, hpool, hsize, hcounted, hnone, hfree⟩ :
      ∃ m, exec step (init oneSlab [Slab.kSize]) slabTaken = some m ∧
        ∃ pool, m.pools[0]? = some pool ∧ pool.maxSize.toNat = Slab.kSize ∧ pool.counted = 1 ∧
          pool.curSlabsAdvised = 0 ∧ pool.freeSlabs.length = 0 := by decide +kernel
  refine ⟨m, pool, hrun, hpool, ?_⟩
  refine (reportsAtMost_iff hrun (by decide +kernel) hpool (by decide +kernel) ?_).2.mpr (Or.inl ?_)
  · rw [hcounted, hfree]
    decide
  · rw [hsize, hcounted]
    exact ⟨Nat.le_refl _, hnone⟩

/-- The pool has a free slab of its own when its limit is made smaller by one byte. The slab does
not fit any more, and the unallocated slabs are `2 ^ 64 - 1`. -/
theorem unallocated_slabs_wrap :
    ∃ m pool, exec step (init oneSlab [Slab.kSize])
        (slabReleased .kRebalance ++ [.shrinkPool 0 1]) = some m ∧
      m.pools[0]? = some pool ∧ pool.maxSize.toNat = Slab.kSize - 1 ∧
      pool.slabsUnAllocated.toNat = 2 ^ 64 - 1 ∧ ∀ slabs, ¬ pool.ReportsAtMost slabs := by
  obtain ⟨m, hrun, pool, hpool, hsize, hslabs⟩ : ∃ m, exec step (init oneSlab [Slab.kSize])
        (slabReleased .kRebalance ++ [.shrinkPool 0 1]) = some m ∧
      ∃ pool, m.pools[0]? = some pool ∧ pool.maxSize.toNat = Slab.kSize - 1 ∧
        pool.slabsUnAllocated.toNat = 2 ^ 64 - 1 := by decide +kernel
  refine ⟨m, pool, hrun, hpool, hsize, hslabs, ?_⟩
  rintro slabs ⟨hle, -⟩
  rw [hsize, hslabs] at hle
  exact absurd hle (by decide)

end Runs

end MemoryAllocator

end CacheLib
