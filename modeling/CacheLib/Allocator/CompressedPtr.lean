/-
Compressed pointers (`cachelib/allocator/memory/CompressedPtr.h`, and `compress` and
`unCompress` of `SlabAllocator.h`).

A pointer to an allocation is given by the index of its slab and its own index in the slab.
`CompressedPtr4B` packs the two into 32 bits. `CompressedPtr5B` has eight more, for the upper
bits of the slab index; with several memory tiers one bit of each format says which tier it
is. The null pointer is the pattern with all bits set.

What the slab allocator, a template, uses of a format is the class `CompressedPtr` here, and
what makes a format right is `Packs`. That the indices have room is a fact about the memory:
even the largest has one slab less for use than there are slab indices, because the headers
take at least one. This is also why nothing compresses to the null pattern.
-/
import Mathlib.Data.UInt
import CacheLib.Allocator.SlabAllocator

set_option autoImplicit false

namespace CacheLib

/-! ## The two formats -/

/-- What the slab allocator uses of a format. -/
class CompressedPtr (P : Type) where
  numSlabIdxBits (isMultiTiered : Bool) : ℕ
  /-- The default constructor -/
  null : P
  isNull : P → Bool
  /-- The constructor for an allocation -/
  ofIdx (slabIdx allocIdx : UInt32) (isMultiTiered : Bool) (tid : Int8) : P
  getSlabIdx (p : P) (isMultiTiered : Bool) : UInt32
  getAllocIdx : P → UInt32
  saveState : P → Int64
  /-- The constructor from a saved value -/
  restore : Int64 → P

namespace CompressedPtr

/-- `kNumAllocIdxBits`, in both formats -/
def kNumAllocIdxBits : ℕ := Slab.kNumSlabBits - Slab.kMinAllocPower

/-- `kAllocIdxMask`, in both formats -/
def kAllocIdxMask : UInt32 := ((1 : UInt32) <<< 16) - 1

/-- `kNull`, in both formats -/
def kNull : UInt32 := 0xffffffff

/-- The memory that the indices of a format reach; without tiers, `getMaxAddressableSize`. -/
def maxAddressableSize (P : Type) [CompressedPtr P] (isMultiTiered : Bool) : ℕ :=
  2 ^ (numSlabIdxBits P isMultiTiered + Slab.kNumSlabBits)

def getMaxAddressableSize (P : Type) [CompressedPtr P] : ℕ := maxAddressableSize P false

end CompressedPtr

open CompressedPtr

structure CompressedPtr4B where
  ptr : UInt32
  deriving DecidableEq, Repr

namespace CompressedPtr4B

def kTierIdxMask : UInt32 := (1 : UInt32) <<< 31

def compress (slabIdx allocIdx : UInt32) (isMultiTiered : Bool) (tid : Int8) : UInt32 :=
  if !isMultiTiered then (slabIdx <<< 16) + allocIdx
  else (tid.toInt32.toUInt32 <<< 31) + (slabIdx <<< 16) + allocIdx

def getSlabIdx (p : CompressedPtr4B) (isMultiTiered : Bool) : UInt32 :=
  let noTierIdPtr := if isMultiTiered then p.ptr &&& ~~~kTierIdxMask else p.ptr
  noTierIdPtr >>> 16

instance : CompressedPtr CompressedPtr4B where
  numSlabIdxBits isMultiTiered := 31 - kNumAllocIdxBits + (!isMultiTiered).toNat
  null := ⟨kNull⟩
  isNull p := p.ptr == kNull
  ofIdx slabIdx allocIdx isMultiTiered tid := ⟨compress slabIdx allocIdx isMultiTiered tid⟩
  getSlabIdx := getSlabIdx
  getAllocIdx p := p.ptr &&& kAllocIdxMask
  saveState p := p.ptr.toUInt64.toInt64
  restore ptr := ⟨ptr.toUInt64.toUInt32⟩

end CompressedPtr4B

structure CompressedPtr5B where
  ptr : UInt32
  regionIdx : UInt8
  deriving DecidableEq, Repr

namespace CompressedPtr5B

def kRegionNull : UInt8 := 0xff

/-- A byte, but `~` makes an `int` of it. -/
def kTierIdxMask : UInt32 := (1 : UInt32) <<< 6

/-- `compress`. The slab index is shifted in 32 bits; its upper bits are `getRegionIdx`. -/
def compress (slabIdx allocIdx : UInt32) (isMultiTiered : Bool) (tid : Int8) : UInt64 :=
  if !isMultiTiered then ((slabIdx <<< 16) + allocIdx).toUInt64
  else (tid.toInt64.toUInt64 <<< 38) + (slabIdx <<< 16).toUInt64 + allocIdx.toUInt64

def getRegionIdx (slabIdx : UInt32) (isMultiTiered : Bool) (tid : Int8) : UInt8 :=
  if isMultiTiered then
    (tid.toInt32.toUInt32 <<< 6).toUInt8 + ((slabIdx >>> 16) &&& ~~~kTierIdxMask).toUInt8
  else (slabIdx >>> 16).toUInt8

def getSlabIdx (p : CompressedPtr5B) (isMultiTiered : Bool) : UInt32 :=
  let noTierIdPtr :=
    if isMultiTiered then p.regionIdx.toUInt32 &&& ~~~kTierIdxMask else p.regionIdx.toUInt32
  (noTierIdPtr <<< 16) + (p.ptr >>> 16)

def getRaw (p : CompressedPtr5B) : UInt64 := (p.regionIdx.toUInt64 <<< 32) + p.ptr.toUInt64

instance : CompressedPtr CompressedPtr5B where
  numSlabIdxBits isMultiTiered := 6 + (32 - kNumAllocIdxBits) + (!isMultiTiered).toNat
  null := ⟨kNull, kRegionNull⟩
  isNull p := p.ptr == kNull && p.regionIdx == kRegionNull
  ofIdx slabIdx allocIdx isMultiTiered tid :=
    ⟨(compress slabIdx allocIdx isMultiTiered tid).toUInt32,
      getRegionIdx slabIdx isMultiTiered tid⟩
  getSlabIdx := getSlabIdx
  getAllocIdx p := p.ptr &&& kAllocIdxMask
  saveState p := p.getRaw.toInt64
  restore ptr := ⟨ptr.toUInt64.toUInt32, (ptr >>> 32).toUInt64.toUInt8⟩

end CompressedPtr5B

/-! ## Packing -/

/-- The indices of an allocation that a format has room for. The last slab index is not one:
`compress` demands the same. -/
structure Room (P : Type) [CompressedPtr P] (isMultiTiered : Bool) (slabIdx allocIdx : UInt32) :
    Prop where
  slabIdx_lt : slabIdx.toNat + 1 < 2 ^ numSlabIdxBits P isMultiTiered
  allocIdx_lt : allocIdx.toNat < 2 ^ kNumAllocIdxBits

/-- **A format packs**: the indices that it has room for come out as they went in. -/
structure Packs (P : Type) [CompressedPtr P] : Prop where
  numSlabIdxBits_le : ∀ isMultiTiered, numSlabIdxBits P isMultiTiered ≤ 32
  getSlabIdx_ofIdx : ∀ {slabIdx allocIdx : UInt32} {isMultiTiered : Bool},
    Room P isMultiTiered slabIdx allocIdx →
      getSlabIdx (ofIdx slabIdx allocIdx isMultiTiered 0 : P) isMultiTiered = slabIdx
  getAllocIdx_ofIdx : ∀ {slabIdx allocIdx : UInt32} {isMultiTiered : Bool},
    Room P isMultiTiered slabIdx allocIdx →
      getAllocIdx (ofIdx slabIdx allocIdx isMultiTiered 0 : P) = allocIdx
  isNull_ofIdx : ∀ {slabIdx allocIdx : UInt32} {isMultiTiered : Bool},
    Room P isMultiTiered slabIdx allocIdx →
      isNull (ofIdx slabIdx allocIdx isMultiTiered 0 : P) = false
  restore_saveState : ∀ p : P, restore (saveState p) = p

theorem toNat_shiftLeft_16 (x : UInt32) : (x <<< 16).toNat = x.toNat * 2 ^ 16 % 2 ^ 32 := by
  rw [UInt32.toNat_shiftLeft, Nat.shiftLeft_eq]
  rfl

theorem toNat_shiftRight_16 (x : UInt32) : (x >>> 16).toNat = x.toNat / 2 ^ 16 := by
  rw [UInt32.toNat_shiftRight, Nat.shiftRight_eq_div_pow]
  rfl

theorem toNat_and_kAllocIdxMask (x : UInt32) : (x &&& kAllocIdxMask).toNat = x.toNat % 2 ^ 16 := by
  rw [UInt32.toNat_and]
  exact Nat.and_two_pow_sub_one_eq_mod x.toNat 16

/-- A mask that has the lower `k` bits keeps what fits into them. -/
theorem and_mask_eq_self {x mask : UInt32} {k : ℕ} (hmask : (2 ^ k - 1) &&& mask.toNat = 2 ^ k - 1)
    (hx : x.toNat < 2 ^ k) : x &&& mask = x := by
  apply UInt32.toNat.inj
  have hlow : x.toNat &&& (2 ^ k - 1) = x.toNat := Nat.and_two_pow_sub_one_of_lt_two_pow hx
  calc (x &&& mask).toNat
      = x.toNat &&& mask.toNat := UInt32.toNat_and x mask
    _ = x.toNat &&& ((2 ^ k - 1) &&& mask.toNat) := by rw [← Nat.and_assoc, hlow]
    _ = x.toNat := by rw [hmask, hlow]

namespace CompressedPtr4B

variable {slabIdx allocIdx : UInt32} {isMultiTiered : Bool}

theorem slabIdx_lt (h : Room CompressedPtr4B isMultiTiered slabIdx allocIdx) :
    slabIdx.toNat + 1 < 2 ^ 16 ∧ (isMultiTiered = true → slabIdx.toNat + 1 < 2 ^ 15) := by
  have hlt := h.slabIdx_lt
  cases isMultiTiered
  · exact ⟨hlt, nofun⟩
  · exact ⟨Nat.lt_trans hlt (by decide), fun _ => hlt⟩

theorem toNat_compress (h : Room CompressedPtr4B isMultiTiered slabIdx allocIdx) :
    (compress slabIdx allocIdx isMultiTiered 0).toNat = slabIdx.toNat * 2 ^ 16 + allocIdx.toNat := by
  have hslab := (slabIdx_lt h).1
  have halloc : allocIdx.toNat < 2 ^ 16 := h.allocIdx_lt
  -- tier 0 adds nothing
  have hsame : compress slabIdx allocIdx isMultiTiered 0 = (slabIdx <<< 16) + allocIdx := by
    have htier : (0 : Int8).toInt32.toUInt32 <<< 31 = 0 := by decide
    cases isMultiTiered
    · rfl
    · simp only [compress, Bool.not_true, Bool.false_eq_true, if_false, htier, UInt32.zero_add]
  rw [hsame, UInt32.toNat_add, toNat_shiftLeft_16]
  omega

theorem packs : Packs CompressedPtr4B where
  numSlabIdxBits_le := by decide
  getSlabIdx_ofIdx := by
    intro slabIdx allocIdx isMultiTiered h
    obtain ⟨hslab, htiered⟩ := slabIdx_lt h
    have halloc : allocIdx.toNat < 2 ^ 16 := h.allocIdx_lt
    have hnat := toNat_compress h
    change getSlabIdx ⟨compress slabIdx allocIdx isMultiTiered 0⟩ isMultiTiered = slabIdx
    -- the bit of the tier is not set
    have hnoTier : (if isMultiTiered then compress slabIdx allocIdx isMultiTiered 0 &&& ~~~kTierIdxMask
        else compress slabIdx allocIdx isMultiTiered 0) = compress slabIdx allocIdx isMultiTiered 0 := by
      split_ifs with hmulti
      · have hlt := htiered hmulti
        exact and_mask_eq_self (k := 31) (by decide) (by omega)
      · rfl
    apply UInt32.toNat.inj
    simp only [getSlabIdx, hnoTier, toNat_shiftRight_16, hnat]
    omega
  getAllocIdx_ofIdx := by
    intro slabIdx allocIdx isMultiTiered h
    have halloc : allocIdx.toNat < 2 ^ 16 := h.allocIdx_lt
    change compress slabIdx allocIdx isMultiTiered 0 &&& kAllocIdxMask = allocIdx
    apply UInt32.toNat.inj
    rw [toNat_and_kAllocIdxMask, toNat_compress h]
    omega
  isNull_ofIdx := by
    intro slabIdx allocIdx isMultiTiered h
    have hslab := (slabIdx_lt h).1
    have halloc : allocIdx.toNat < 2 ^ 16 := h.allocIdx_lt
    change (compress slabIdx allocIdx isMultiTiered 0 == kNull) = false
    rw [beq_eq_false_iff_ne]
    intro hnull
    have hnat := toNat_compress h
    rw [hnull] at hnat
    change 2 ^ 32 - 1 = _ at hnat
    omega
  restore_saveState := by
    intro p
    change (⟨p.ptr.toUInt64.toInt64.toUInt64.toUInt32⟩ : CompressedPtr4B) = p
    simp

end CompressedPtr4B

namespace CompressedPtr5B

variable {slabIdx allocIdx : UInt32} {isMultiTiered : Bool}

theorem slabIdx_lt (h : Room CompressedPtr5B isMultiTiered slabIdx allocIdx) :
    slabIdx.toNat + 1 < 2 ^ 23 ∧ (isMultiTiered = true → slabIdx.toNat + 1 < 2 ^ 22) := by
  have hlt := h.slabIdx_lt
  cases isMultiTiered
  · exact ⟨hlt, nofun⟩
  · exact ⟨Nat.lt_trans hlt (by decide), fun _ => hlt⟩

/-- The lower 16 bits of the slab index are in `ptr`. -/
theorem toNat_compress (h : Room CompressedPtr5B isMultiTiered slabIdx allocIdx) :
    (compress slabIdx allocIdx isMultiTiered 0).toUInt32.toNat
      = slabIdx.toNat % 2 ^ 16 * 2 ^ 16 + allocIdx.toNat := by
  have halloc : allocIdx.toNat < 2 ^ 16 := h.allocIdx_lt
  have htier : (0 : Int8).toInt64.toUInt64 <<< 38 = 0 := by decide
  rw [UInt64.toNat_toUInt32]
  cases isMultiTiered
  · have hsame : compress slabIdx allocIdx false 0 = ((slabIdx <<< 16) + allocIdx).toUInt64 := rfl
    rw [hsame, UInt32.toNat_toUInt64, UInt32.toNat_add, toNat_shiftLeft_16]
    omega
  · have hsame : compress slabIdx allocIdx true 0
        = (slabIdx <<< 16).toUInt64 + allocIdx.toUInt64 := by
      simp only [compress, Bool.not_true, Bool.false_eq_true, if_false, htier, UInt64.zero_add]
    rw [hsame, UInt64.toNat_add, UInt32.toNat_toUInt64, UInt32.toNat_toUInt64, toNat_shiftLeft_16]
    omega

/-- The upper bits are the region. -/
theorem toNat_getRegionIdx (h : Room CompressedPtr5B isMultiTiered slabIdx allocIdx) :
    (getRegionIdx slabIdx isMultiTiered 0).toNat = slabIdx.toNat / 2 ^ 16 := by
  obtain ⟨hslab, htiered⟩ := slabIdx_lt h
  have hsame : getRegionIdx slabIdx isMultiTiered 0 = (slabIdx >>> 16).toUInt8 := by
    cases isMultiTiered
    · rfl
    · have hlt := htiered rfl
      have htier : ((0 : Int8).toInt32.toUInt32 <<< 6).toUInt8 = 0 := by decide
      have hmask : (slabIdx >>> 16) &&& ~~~kTierIdxMask = slabIdx >>> 16 := by
        apply and_mask_eq_self (k := 6) (by decide)
        rw [toNat_shiftRight_16]
        omega
      simp only [getRegionIdx, if_true, htier, hmask, UInt8.zero_add]
  rw [hsame, UInt32.toNat_toUInt8, toNat_shiftRight_16]
  omega

theorem toNat_getRaw (p : CompressedPtr5B) :
    p.getRaw.toNat = p.regionIdx.toNat * 2 ^ 32 + p.ptr.toNat := by
  have hregion : p.regionIdx.toNat < 2 ^ 8 := p.regionIdx.toNat_lt
  have hptr : p.ptr.toNat < 2 ^ 32 := p.ptr.toNat_lt
  have hshift : (p.regionIdx.toUInt64 <<< 32).toNat = p.regionIdx.toNat * 2 ^ 32 % 2 ^ 64 := by
    rw [UInt64.toNat_shiftLeft, Nat.shiftLeft_eq, UInt8.toNat_toUInt64]
    rfl
  rw [getRaw, UInt64.toNat_add, hshift, UInt32.toNat_toUInt64]
  omega

theorem toNat_shiftRight_toInt64 {x : UInt64} (h : x.toNat < 2 ^ 63) :
    (x.toInt64 >>> 32).toUInt64.toNat = x.toNat / 2 ^ 32 := by
  have hmsb : x.toBitVec.msb = false := by
    rw [BitVec.msb_eq_decide, decide_eq_false_iff_not]
    change ¬ 2 ^ 63 ≤ x.toNat
    omega
  have hshift : (x.toInt64 >>> 32).toUInt64.toBitVec = x.toBitVec >>> 32 := by
    rw [← BitVec.sshiftRight_eq_of_msb_false hmsb]
    simp
  rw [← UInt64.toNat_toBitVec, hshift, BitVec.toNat_ushiftRight, UInt64.toNat_toBitVec,
    Nat.shiftRight_eq_div_pow]

theorem packs : Packs CompressedPtr5B where
  numSlabIdxBits_le := by decide
  getSlabIdx_ofIdx := by
    intro slabIdx allocIdx isMultiTiered h
    obtain ⟨hslab, htiered⟩ := slabIdx_lt h
    have halloc : allocIdx.toNat < 2 ^ 16 := h.allocIdx_lt
    have hregion := toNat_getRegionIdx h
    change getSlabIdx ⟨_, getRegionIdx slabIdx isMultiTiered 0⟩ isMultiTiered = slabIdx
    have hnoTier : (if isMultiTiered then
          (getRegionIdx slabIdx isMultiTiered 0).toUInt32 &&& ~~~kTierIdxMask
        else (getRegionIdx slabIdx isMultiTiered 0).toUInt32)
        = (getRegionIdx slabIdx isMultiTiered 0).toUInt32 := by
      split_ifs with hmulti
      · have hlt := htiered hmulti
        apply and_mask_eq_self (k := 6) (by decide)
        rw [UInt8.toNat_toUInt32, hregion]
        omega
      · rfl
    apply UInt32.toNat.inj
    simp only [getSlabIdx, hnoTier, UInt32.toNat_add, toNat_shiftLeft_16, toNat_shiftRight_16,
      UInt8.toNat_toUInt32, hregion, toNat_compress h]
    omega
  getAllocIdx_ofIdx := by
    intro slabIdx allocIdx isMultiTiered h
    have halloc : allocIdx.toNat < 2 ^ 16 := h.allocIdx_lt
    change (compress slabIdx allocIdx isMultiTiered 0).toUInt32 &&& kAllocIdxMask = allocIdx
    apply UInt32.toNat.inj
    rw [toNat_and_kAllocIdxMask, toNat_compress h]
    omega
  isNull_ofIdx := by
    intro slabIdx allocIdx isMultiTiered h
    have hslab := (slabIdx_lt h).1
    have hregion := toNat_getRegionIdx h
    -- the eighth bit of the region is never set
    have hne : getRegionIdx slabIdx isMultiTiered 0 ≠ kRegionNull := by
      intro hnull
      rw [hnull] at hregion
      change 255 = _ at hregion
      omega
    change (_ && getRegionIdx slabIdx isMultiTiered 0 == kRegionNull) = false
    rw [beq_eq_false_iff_ne.mpr hne, Bool.and_false]
  restore_saveState := by
    intro p
    have hregion : p.regionIdx.toNat < 2 ^ 8 := p.regionIdx.toNat_lt
    have hptr : p.ptr.toNat < 2 ^ 32 := p.ptr.toNat_lt
    have hraw := toNat_getRaw p
    have hlow : p.getRaw.toInt64.toUInt64.toUInt32 = p.ptr := by
      apply UInt32.toNat.inj
      rw [UInt64.toUInt64_toInt64, UInt64.toNat_toUInt32, hraw]
      omega
    have hhigh : (p.getRaw.toInt64 >>> 32).toUInt64.toUInt8 = p.regionIdx := by
      apply UInt8.toNat.inj
      rw [UInt64.toNat_toUInt8, toNat_shiftRight_toInt64 (by omega), hraw]
      omega
    change (⟨p.getRaw.toInt64.toUInt64.toUInt32, (p.getRaw.toInt64 >>> 32).toUInt64.toUInt8⟩ :
      CompressedPtr5B) = p
    rw [hlow, hhigh]

end CompressedPtr5B

/-! ## Compressing

The null pointer is the address `0`. -/

namespace SlabAllocator

/-- What `compress` throws, with the pointer of its message. -/
inductive CompressError where
  | invalidPointer (ptr : ℕ)
  deriving DecidableEq, Repr

/-- `compress`. Nothing is said of the tier, so it is tier 0. -/
def compress (P : Type) [CompressedPtr P] (a : SlabAllocator) (ptr : ℕ) (isMultiTiered : Bool) :
    Except CompressError P :=
  if ptr = 0 then .ok null
  else
    let slab := SlabMemory.getSlabForMemory ptr
    if !a.isValidSlab slab then .error (.invalidPointer ptr)
    else
      let slabIndex := UInt32.ofNat ((slab - a.memory.slabMemoryStart) / Slab.kSize)
      let allocSize := UInt32.ofNat (a.header slabIndex.toNat).allocSize
      let allocIdx := UInt32.ofNat (ptr - slab) / allocSize
      .ok (ofIdx slabIndex allocIdx isMultiTiered 0)

variable {P : Type} [CompressedPtr P]

def unCompress (a : SlabAllocator) (ptr : P) (isMultiTiered : Bool) : ℕ :=
  if isNull ptr then 0
  else
    let slabIndex := getSlabIdx ptr isMultiTiered
    let allocIdx := getAllocIdx ptr
    let slab := a.memory.getSlabForIdx slabIndex.toNat
    let allocSize := UInt32.ofNat (a.header slabIndex.toNat).allocSize
    let offset := allocSize * allocIdx
    slab + offset.toNat

/-- Where the allocation `allocIdx` of the slab `slabIdx` starts. -/
structure StartsAt (a : SlabAllocator) (slabIdx allocIdx ptr : ℕ) : Prop where
  carved : slabIdx < a.nextSlabAllocation
  kMinAllocSize_le : Slab.kMinAllocSize ≤ (a.header slabIdx).allocSize
  le_kSize : (a.header slabIdx).allocSize ≤ Slab.kSize
  fits : (allocIdx + 1) * (a.header slabIdx).allocSize ≤ Slab.kSize
  ptr_eq : ptr = a.memory.getSlabForIdx slabIdx + allocIdx * (a.header slabIdx).allocSize

/-- The start of some allocation. -/
def IsAllocation (a : SlabAllocator) (ptr : ℕ) : Prop :=
  ∃ slabIdx allocIdx, a.StartsAt slabIdx allocIdx ptr

/-- **Compression loses nothing.** -/
structure Lossless (P : Type) [CompressedPtr P] (a : SlabAllocator) (isMultiTiered : Bool) :
    Prop where
  unCompress_compress : ∀ ptr, a.IsAllocation ptr → ∃ p : P,
    a.compress P ptr isMultiTiered = .ok p ∧ a.unCompress p isMultiTiered = ptr ∧
      isNull p = false ∧ restore (saveState p) = p
  compress_injective : ∀ ptr ptr', a.IsAllocation ptr → a.IsAllocation ptr' →
    a.compress P ptr isMultiTiered = a.compress P ptr' isMultiTiered → ptr = ptr'

variable {a : SlabAllocator} {slabIdx allocIdx ptr : ℕ} {isMultiTiered : Bool}

section StartsAt

variable (h : a.StartsAt slabIdx allocIdx ptr)

include h

theorem StartsAt.offset_lt :
    allocIdx * (a.header slabIdx).allocSize + Slab.kMinAllocSize ≤ Slab.kSize := by
  have hfits := h.fits
  have hmin := h.kMinAllocSize_le
  rw [Nat.add_mul, Nat.one_mul] at hfits
  omega

/-- A slab has room for at most `2 ^ 16` allocations. -/
theorem StartsAt.allocIdx_lt :
    allocIdx < 2 ^ kNumAllocIdxBits := by
  have hfits : (allocIdx + 1) * Slab.kMinAllocSize ≤ Slab.kSize :=
    Nat.le_trans (Nat.mul_le_mul_left _ h.kMinAllocSize_le) h.fits
  unfold Slab.kMinAllocSize Slab.kSize Slab.kMinAllocPower Slab.kNumSlabBits at hfits
  unfold kNumAllocIdxBits Slab.kMinAllocPower Slab.kNumSlabBits
  omega

theorem StartsAt.lt_numSlabMemory :
    slabIdx < a.memory.numSlabMemory :=
  Nat.lt_of_lt_of_le h.carved a.nextSlabAllocation_le

/-- The slab of an allocation is found by its address. -/
theorem StartsAt.getSlabForMemory_eq :
    SlabMemory.getSlabForMemory ptr = a.memory.getSlabForIdx slabIdx := by
  have hend := SlabMemory.getSlabForIdx_add_le h.lt_numSlabMemory
  have haligned := SlabMemory.getSlabForIdx_aligned (m := a.memory) slabIdx
  have hoffset := h.offset_lt
  have hptr := h.ptr_eq
  have hsize : Slab.kSize = 2 ^ 22 := rfl
  have hmin : Slab.kMinAllocSize = 64 := rfl
  rw [SlabMemory.getSlabForMemory_eq (by omega)]
  rw [hsize] at haligned hoffset ⊢
  omega

theorem StartsAt.isValidSlab :
    a.isValidSlab (a.memory.getSlabForIdx slabIdx) = true := by
  have hend := SlabMemory.getSlabForIdx_add_le h.lt_numSlabMemory
  have haligned := SlabMemory.getSlabForIdx_aligned (m := a.memory) slabIdx
  have hsize : Slab.kSize = 2 ^ 22 := rfl
  have hnext : a.memory.getSlabForIdx slabIdx
      < a.memory.getSlabForIdx a.nextSlabAllocation := by
    have hmul := Nat.mul_lt_mul_of_pos_right h.carved (show 0 < Slab.kSize by decide)
    unfold SlabMemory.getSlabForIdx
    omega
  have hself : SlabMemory.getSlabForMemory (a.memory.getSlabForIdx slabIdx)
      = a.memory.getSlabForIdx slabIdx := by
    rw [SlabMemory.getSlabForMemory_eq (by omega)]
    exact Nat.div_mul_cancel (Nat.dvd_of_mod_eq_zero haligned)
  have hstart : a.memory.slabMemoryStart ≤ a.memory.getSlabForIdx slabIdx := Nat.le_add_right _ _
  simp [SlabAllocator.isValidSlab, hstart, hnext, hself]

theorem StartsAt.compress_eq (hslab : slabIdx < 2 ^ 32) :
    a.compress P ptr isMultiTiered
      = .ok (ofIdx (UInt32.ofNat slabIdx) (UInt32.ofNat allocIdx) isMultiTiered 0) := by
  have hpos : ptr ≠ 0 := by
    have hstart := SlabMemory.slabMemoryStart_pos (m := a.memory)
    have hptr := h.ptr_eq
    unfold SlabMemory.getSlabForIdx at hptr
    omega
  have hidx : (a.memory.getSlabForIdx slabIdx - a.memory.slabMemoryStart) / Slab.kSize
      = slabIdx := by
    rw [SlabMemory.getSlabForIdx, Nat.add_sub_cancel_left]
    exact Nat.mul_div_cancel slabIdx (by decide)
  have hheader : (UInt32.ofNat slabIdx).toNat = slabIdx := UInt32.toNat_ofNat_of_lt' hslab
  have hoff : ptr - a.memory.getSlabForIdx slabIdx
      = allocIdx * (a.header slabIdx).allocSize := by
    rw [h.ptr_eq, Nat.add_sub_cancel_left]
  have halloc : UInt32.ofNat (allocIdx * (a.header slabIdx).allocSize)
      / UInt32.ofNat (a.header slabIdx).allocSize = UInt32.ofNat allocIdx := by
    have hoffset := h.offset_lt
    have hle := h.le_kSize
    have hmin := h.kMinAllocSize_le
    have hidx := h.allocIdx_lt
    have hsize : Slab.kSize = 2 ^ 22 := rfl
    have hsmall : Slab.kMinAllocSize = 64 := rfl
    have hbits : kNumAllocIdxBits = 16 := rfl
    rw [hbits] at hidx
    have hlt : allocIdx * (a.header slabIdx).allocSize < 2 ^ 32 := by omega
    have hsizelt : (a.header slabIdx).allocSize < 2 ^ 32 := by omega
    have hidxlt : allocIdx < 2 ^ 32 := by omega
    apply UInt32.toNat.inj
    rw [UInt32.toNat_div, UInt32.toNat_ofNat_of_lt' hlt, UInt32.toNat_ofNat_of_lt' hsizelt,
      UInt32.toNat_ofNat_of_lt' hidxlt]
    exact Nat.mul_div_cancel allocIdx (by omega)
  unfold SlabAllocator.compress
  rw [if_neg hpos, h.getSlabForMemory_eq]
  simp only [h.isValidSlab, Bool.not_true, Bool.false_eq_true, if_false, hidx, hheader, hoff,
    halloc]

/-- What `unCompress` computes from the indices of an allocation. -/
theorem StartsAt.unCompress_eq {p : P}
    (hnull : isNull p = false) (hslab : (getSlabIdx p isMultiTiered).toNat = slabIdx)
    (halloc : (getAllocIdx p).toNat = allocIdx) : a.unCompress p isMultiTiered = ptr := by
  have hoffset := h.offset_lt
  have hle := h.le_kSize
  have hsize : Slab.kSize = 2 ^ 22 := rfl
  have hlt : (a.header slabIdx).allocSize < 2 ^ 32 := by omega
  have hoff : (UInt32.ofNat (a.header slabIdx).allocSize * getAllocIdx p).toNat
      = allocIdx * (a.header slabIdx).allocSize := by
    rw [UInt32.toNat_mul, UInt32.toNat_ofNat_of_lt' hlt, halloc, Nat.mul_comm]
    exact Nat.mod_eq_of_lt (by omega)
  unfold unCompress
  rw [hnull]
  simp only [Bool.false_eq_true, if_false, hslab, hoff]
  exact h.ptr_eq.symm

theorem StartsAt.room (hpacks : Packs P)
    (hsize : a.memory.memorySize ≤ maxAddressableSize P isMultiTiered) :
    slabIdx < 2 ^ 32 ∧
      Room P isMultiTiered (UInt32.ofNat slabIdx) (UInt32.ofNat allocIdx) := by
  have hbits : 2 ^ numSlabIdxBits P isMultiTiered ≤ 2 ^ 32 :=
    Nat.pow_le_pow_right (by decide) (hpacks.numSlabIdxBits_le isMultiTiered)
  have hslabs : a.memory.memorySize / Slab.kSize ≤ 2 ^ numSlabIdxBits P isMultiTiered := by
    apply Nat.div_le_of_le_mul
    rwa [maxAddressableSize, Nat.pow_add, Nat.mul_comm] at hsize
  have hidx := SlabMemory.idx_add_one_lt h.lt_numSlabMemory
  have halloc := h.allocIdx_lt
  have hlt : slabIdx < 2 ^ 32 := by omega
  refine ⟨hlt, ?_, ?_⟩
  · rw [UInt32.toNat_ofNat_of_lt' hlt]
    omega
  · rwa [UInt32.toNat_ofNat_of_lt' (Nat.lt_trans halloc (by decide))]

end StartsAt

/-- A format that packs loses nothing in the memory that it can address. -/
theorem lossless_of_packs (hpacks : Packs P)
    (hsize : a.memory.memorySize ≤ maxAddressableSize P isMultiTiered) :
    a.Lossless P isMultiTiered := by
  have hround : ∀ ptr, a.IsAllocation ptr → ∃ p : P,
      a.compress P ptr isMultiTiered = .ok p ∧ a.unCompress p isMultiTiered = ptr ∧
        isNull p = false := by
    rintro ptr ⟨slabIdx, allocIdx, h⟩
    obtain ⟨hslab, hroom⟩ := h.room hpacks hsize
    have hnull := hpacks.isNull_ofIdx hroom
    refine ⟨_, h.compress_eq hslab, h.unCompress_eq hnull ?_ ?_, hnull⟩
    · rw [hpacks.getSlabIdx_ofIdx hroom]
      exact UInt32.toNat_ofNat_of_lt' hslab
    · rw [hpacks.getAllocIdx_ofIdx hroom]
      exact UInt32.toNat_ofNat_of_lt' (Nat.lt_trans h.allocIdx_lt (by decide))
  constructor
  · intro ptr h
    obtain ⟨p, hcompress, hback, hnull⟩ := hround ptr h
    exact ⟨p, hcompress, hback, hnull, hpacks.restore_saveState p⟩
  · -- the allocation can be read off the pointer
    intro ptr ptr' h h' heq
    obtain ⟨p, hcompress, hback, -⟩ := hround ptr h
    obtain ⟨p', hcompress', hback', -⟩ := hround ptr' h'
    rw [hcompress, hcompress', Except.ok.injEq] at heq
    rw [← hback, ← hback', heq]

/-- **Both formats lose nothing**, in every memory up to the largest that they can address, with
and without tiers. -/
theorem compressed_pointers_lossless (a : SlabAllocator) (isMultiTiered : Bool) :
    (a.memory.memorySize ≤ maxAddressableSize CompressedPtr4B isMultiTiered →
      a.Lossless CompressedPtr4B isMultiTiered) ∧
    (a.memory.memorySize ≤ maxAddressableSize CompressedPtr5B isMultiTiered →
      a.Lossless CompressedPtr5B isMultiTiered) :=
  ⟨lossless_of_packs CompressedPtr4B.packs, lossless_of_packs CompressedPtr5B.packs⟩

/-- All slabs of a memory are carved out, for the smallest class. -/
def allCarved (memory : SlabMemory) : SlabAllocator where
  memory
  nextSlabAllocation := memory.numSlabMemory
  nextSlabAllocation_le := Nat.le_refl _
  header := fun _ => { poolId := some 0, classId := some 0, allocSize := 64 }

/-- The largest memory for `CompressedPtr4B`. -/
def largest4B : SlabMemory where
  memoryStart := 2 ^ 22
  memorySize := getMaxAddressableSize CompressedPtr4B
  memoryStart_ne_zero := by decide
  memoryStart_aligned := by decide
  memorySize_aligned := by decide
  headers_lt := by decide
  end_le := by decide

/-- The largest memory for `CompressedPtr5B`. -/
def largest5B : SlabMemory where
  memoryStart := 2 ^ 22
  memorySize := getMaxAddressableSize CompressedPtr5B
  memoryStart_ne_zero := by decide
  memoryStart_aligned := by decide
  memorySize_aligned := by decide
  headers_lt := by decide
  end_le := by decide

/-- The last allocation of the last slab, in both. -/
theorem compressed_pointers_lossless_largest :
    (∃ ptr, (allCarved largest4B).StartsAt 65534 65535 ptr) ∧
    (allCarved largest4B).Lossless CompressedPtr4B false ∧
    (∃ ptr, (allCarved largest5B).StartsAt 8388593 65535 ptr) ∧
    (allCarved largest5B).Lossless CompressedPtr5B false := by
  refine ⟨⟨_, by decide, by decide, by decide, by decide, rfl⟩, ?_,
    ⟨_, by decide, by decide, by decide, by decide, rfl⟩, ?_⟩
  · exact (compressed_pointers_lossless (allCarved largest4B) false).1 (by decide)
  · exact (compressed_pointers_lossless (allCarved largest5B) false).2 (by decide)

end SlabAllocator

end CacheLib
