/-
`SlabAllocator` (`cachelib/allocator/memory/SlabAllocator.cpp`, `Slab.h`): the memory is
cut into slabs, the first of them hold the headers of the others, and slabs go to pools
and come back.

A slab is its index behind the headers, as in the model of an allocation class; its
address is `getSlabForIdx`. A pointer is a number, the null pointer is `0`. What the kernel
answers to `madvise` is an input.
-/
import Mathlib.Data.Nat.Bitwise
import CacheLib.Allocator.AllocationClass

set_option autoImplicit false

namespace CacheLib

open AllocationClass (Slab)

namespace Slab

def kNumSlabBits : ℕ := 22

def kMinAllocPower : ℕ := 6

def kMinAllocSize : ℕ := 2 ^ kMinAllocPower

/-- `Slab::kSize`, which is `sizeof(Slab)` -/
def kSize : ℕ := 2 ^ kNumSlabBits

end Slab

/-- The header of a slab. `none` is `kInvalidPoolId`, and the two flags are fields. -/
structure SlabHeader extends AllocationClass.SlabHeader where
  poolId : Option ℕ := none
  advised : Bool := false
  deriving DecidableEq, Repr

/-- `resetAllocInfo`. It does not reset the flags. -/
def SlabHeader.resetAllocInfo (header : SlabHeader) : SlabHeader :=
  { header with poolId := none, classId := none, allocSize := 0 }

/-! ## The memory -/

namespace SlabMemory

/-- `sizeof(SlabHeader)`, which is packed -/
def sizeofSlabHeader : ℕ := 7

def roundDownToSlabSize (size : ℕ) : ℕ := size - size % Slab.kSize

def numSlabs (memorySize : ℕ) : ℕ := memorySize / Slab.kSize % 2 ^ 32

def numSlabsForHeaders (memorySize : ℕ) : ℕ :=
  (sizeofSlabHeader * numSlabs memorySize + Slab.kSize - 1) / Slab.kSize % 2 ^ 32

end SlabMemory

open SlabMemory in
/-- The memory of a slab allocator: what `computeSlabMemoryStart` and `checkState` have
let through, in an address space of 64 bits. -/
structure SlabMemory where
  memoryStart : ℕ
  memorySize : ℕ
  memoryStart_ne_zero : memoryStart ≠ 0
  memoryStart_aligned : memoryStart % Slab.kSize = 0
  memorySize_aligned : memorySize % Slab.kSize = 0
  headers_lt : numSlabsForHeaders memorySize < numSlabs memorySize
  end_le : memoryStart + memorySize ≤ 2 ^ 64

namespace SlabMemory

inductive Error where
  | notEnoughMemory
  | invalidMemoryStart
  | invalidMemorySpec
  deriving DecidableEq, Repr

/-- The constructor, on `size` bytes that are mapped from `memoryStart` on. -/
def create (memoryStart size : ℕ) (hmapped : memoryStart + size ≤ 2 ^ 64) :
    Except Error SlabMemory :=
  let memorySize := roundDownToSlabSize size
  if hheaders : numSlabs memorySize ≤ numSlabsForHeaders memorySize then .error .notEnoughMemory
  else if hstart : memoryStart = 0 ∨ memoryStart % Slab.kSize ≠ 0 then .error .invalidMemoryStart
  else if memorySize ≤ Slab.kSize then .error .invalidMemorySpec
  else
    .ok {
      memoryStart, memorySize
      memoryStart_ne_zero := fun h => hstart (Or.inl h)
      memoryStart_aligned := by
        by_contra h
        exact hstart (Or.inr h)
      memorySize_aligned := by
        change (size - size % Slab.kSize) % Slab.kSize = 0
        exact Nat.sub_mod_eq_zero_of_mod_eq (Nat.mod_mod size Slab.kSize).symm
      headers_lt := Nat.lt_of_not_le hheaders
      end_le := by
        have hle : memorySize ≤ size := Nat.sub_le _ _
        omega }

/-- `slabMemoryStart_` -/
def slabMemoryStart (m : SlabMemory) : ℕ :=
  m.memoryStart + numSlabsForHeaders m.memorySize * Slab.kSize

/-- The slabs from `slabMemoryStart_` to `getSlabMemoryEnd` -/
def numSlabMemory (m : SlabMemory) : ℕ :=
  m.memorySize / Slab.kSize - numSlabsForHeaders m.memorySize

def getNumUsableAndAdvisedSlabs (m : SlabMemory) : ℕ := m.numSlabMemory % 2 ^ 32

/-- `getSlabForIdx`, an address -/
def getSlabForIdx (m : SlabMemory) (idx : ℕ) : ℕ := m.slabMemoryStart + idx * Slab.kSize

variable {m : SlabMemory}

/-- There are headers, so they take a slab. -/
theorem numSlabsForHeaders_pos : 0 < numSlabsForHeaders m.memorySize := by
  have hpos : 0 < numSlabs m.memorySize := Nat.zero_lt_of_lt m.headers_lt
  have hslabs : numSlabs m.memorySize < 2 ^ 32 := Nat.mod_lt _ (by decide)
  have hsize : Slab.kSize = 2 ^ 22 := rfl
  have hheader : sizeofSlabHeader = 7 := rfl
  have hfew : (sizeofSlabHeader * numSlabs m.memorySize + Slab.kSize - 1) / Slab.kSize
      < 2 ^ 32 := by
    apply Nat.div_lt_of_lt_mul
    rw [hsize, hheader]
    omega
  rw [numSlabsForHeaders, Nat.mod_eq_of_lt hfew]
  apply Nat.div_pos
  · rw [hheader]
    omega
  · rw [hsize]
    decide

theorem slabMemoryStart_aligned : m.slabMemoryStart % Slab.kSize = 0 := by
  rw [slabMemoryStart, Nat.add_mul_mod_self_right, m.memoryStart_aligned]

theorem slabMemoryStart_pos : 0 < m.slabMemoryStart :=
  Nat.lt_of_lt_of_le (Nat.pos_of_ne_zero m.memoryStart_ne_zero) (Nat.le_add_right _ _)

theorem getSlabForIdx_aligned (idx : ℕ) : m.getSlabForIdx idx % Slab.kSize = 0 := by
  rw [getSlabForIdx, Nat.add_mul_mod_self_right, slabMemoryStart_aligned]

/-- The slabs lie in the memory. -/
theorem getSlabForIdx_add_le {idx : ℕ} (h : idx < m.numSlabMemory) :
    m.getSlabForIdx idx + Slab.kSize ≤ 2 ^ 64 := by
  have hend := m.end_le
  have hsize : m.memorySize / Slab.kSize * Slab.kSize = m.memorySize :=
    Nat.div_mul_cancel (Nat.dvd_of_mod_eq_zero m.memorySize_aligned)
  have hidx : numSlabsForHeaders m.memorySize + idx + 1 ≤ m.memorySize / Slab.kSize := by
    unfold numSlabMemory at h
    omega
  have hmul := Nat.mul_le_mul_right Slab.kSize hidx
  rw [hsize, Nat.add_mul, Nat.add_mul, Nat.one_mul] at hmul
  unfold getSlabForIdx slabMemoryStart
  omega

/-- The headers leave one index less than there are slabs. -/
theorem idx_add_one_lt {idx : ℕ} (h : idx < m.numSlabMemory) :
    idx + 1 < m.memorySize / Slab.kSize := by
  have hpos := numSlabsForHeaders_pos (m := m)
  unfold numSlabMemory at h
  omega

def kAddressMask : ℕ := 2 ^ 64 - 1 - 2 ^ Slab.kNumSlabBits + 1

/-- `getSlabForMemory`, an address -/
def getSlabForMemory (memory : ℕ) : ℕ := memory &&& kAddressMask

/-- The mask keeps the bits from 22 on. -/
theorem testBit_kAddressMask (i : ℕ) :
    kAddressMask.testBit i = (decide (22 ≤ i) && decide (i < 64)) := by
  have hmask : kAddressMask = (2 ^ 42 - 1) * 2 ^ 22 := by decide
  rw [hmask, Nat.testBit_mul_two_pow, Nat.testBit_two_pow_sub_one]
  by_cases hi : 22 ≤ i
  · have hiff : i - 22 < 42 ↔ i < 64 := by omega
    simp [hi, hiff]
  · simp [hi]

/-- `getSlabForMemory` rounds an address down to a slab boundary. -/
theorem getSlabForMemory_eq {memory : ℕ} (h : memory < 2 ^ 64) :
    getSlabForMemory memory = memory / Slab.kSize * Slab.kSize := by
  apply Nat.eq_of_testBit_eq
  intro i
  have hsize : Slab.kSize = 2 ^ 22 := rfl
  rw [getSlabForMemory, Nat.testBit_and, testBit_kAddressMask, hsize, Nat.testBit_mul_two_pow,
    Nat.testBit_div_two_pow]
  by_cases hi : 22 ≤ i
  · rw [Nat.sub_add_cancel hi]
    by_cases hlt : i < 64
    · simp [hi, hlt]
    · have hle : 2 ^ 64 ≤ 2 ^ i := Nat.pow_le_pow_right (by decide) (by omega)
      have hbit : memory.testBit i = false := Nat.testBit_lt_two_pow (Nat.lt_of_lt_of_le h hle)
      simp [hbit]
  · simp [hi]

end SlabMemory

/-! ## The allocator -/

/-- The slab allocator. A pool's entry of `memoryPoolSize` is found by the pool id in a
header; that of `kInvalidPoolId` would lie outside of the array. -/
structure SlabAllocator where
  memory : SlabMemory
  nextSlabAllocation : ℕ := 0
  nextSlabAllocation_le : nextSlabAllocation ≤ memory.numSlabMemory := by exact Nat.zero_le _
  freeSlabs : List Slab := []
  advisedSlabs : List Slab := []
  canAllocate : Bool := true
  memoryPoolSize : Option ℕ → UInt64 := fun _ => 0
  header : Slab → SlabHeader := fun _ => {}

namespace SlabAllocator

variable (a : SlabAllocator)

/-- `isValidSlab`, of an address -/
def isValidSlab (slab : ℕ) : Bool :=
  decide (a.memory.slabMemoryStart ≤ slab) &&
    decide (slab < a.memory.getSlabForIdx a.nextSlabAllocation) &&
    decide (SlabMemory.getSlabForMemory slab = slab)

def makeNewSlabImpl : Option Slab × SlabAllocator :=
  if !a.canAllocate then (none, a)
  else
    match a.freeSlabs.getLast? with
    | some slab => (some slab, { a with freeSlabs := a.freeSlabs.dropLast })
    | none =>
        if hall : a.nextSlabAllocation = a.memory.numSlabMemory then
          (none, { a with canAllocate := false })
        else
          (some a.nextSlabAllocation,
            { a with
              nextSlabAllocation := a.nextSlabAllocation + 1
              nextSlabAllocation_le := Nat.lt_of_le_of_ne a.nextSlabAllocation_le hall })

/-- The slab is the pool's: its counter goes up and the header is a new one. -/
def grant (id : ℕ) (slab : Slab) : SlabAllocator :=
  { a with
    memoryPoolSize := Function.update a.memoryPoolSize (some id)
      (a.memoryPoolSize (some id) + UInt64.ofNat Slab.kSize)
    header := Function.update a.header slab { poolId := some id } }

def makeNewSlab (id : ℕ) : Option Slab × SlabAllocator :=
  match a.makeNewSlabImpl with
  | (none, a) => (none, a)
  | (some slab, a) => (some slab, a.grant id slab)

/-- `freeSlab`, of a valid slab -/
def freeSlab (slab : Slab) : SlabAllocator :=
  { a with
    memoryPoolSize := Function.update a.memoryPoolSize (a.header slab).poolId
      (a.memoryPoolSize (a.header slab).poolId - UInt64.ofNat Slab.kSize)
    freeSlabs := a.freeSlabs ++ [slab]
    canAllocate := true
    header := Function.update a.header slab (a.header slab).resetAllocInfo }

/-- `adviseSlab`, of a valid slab; `madvised` is whether `madvise` succeeded. -/
def adviseSlab (slab : Slab) (madvised : Bool) : Bool × SlabAllocator :=
  if madvised then
    (true,
      { a with
        advisedSlabs := a.advisedSlabs ++ [slab]
        header := Function.update a.header slab
          { (a.header slab).resetAllocInfo with advised := true } })
  else
    (false,
      { a with header := Function.update a.header slab { a.header slab with advised := false } })

def reclaimSlab (id : ℕ) : Option Slab × SlabAllocator :=
  match a.advisedSlabs with
  | [] => (none, a)
  | slab :: rest => (some slab, { a with advisedSlabs := rest }.grant id slab)

end SlabAllocator

end CacheLib
