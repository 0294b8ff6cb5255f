/-
The size controller of the object cache (`ObjectCacheSizeController`).

A run of the controller computes how many entries the cache may have: what the limit on the total
object size allows, then less if the system is short of memory, and at most the configured limit.
All readings and limits are 64-bit words. Two of the differences are taken of words that need not
be in order. The entries that have to go may be more than there are, and in free-memory mode the
spare memory is computed the wrong way round. Both wrap around to a huge number, which the minimum
then ignores.
-/
import CacheLib.Lib.Run
import Mathlib.Algebra.Order.Ring.Nat

set_option autoImplicit false

namespace CacheLib.ObjectCache

open Transition

inductive ObjCacheSizeControlMode where
  | freeMemory
  | residentMemory
  | objectSize
  | freeMemoryOnly
  deriving DecidableEq, Repr

structure Config where
  l1EntriesLimit : UInt64
  totalObjectSizeLimit : UInt64
  memoryMode : ObjCacheSizeControlMode := .objectSize
  upperLimitBytes : UInt64 := 0
  lowerLimitBytes : UInt64 := 0
  shrinkCacheBy : UInt64 := 8
  expandCacheBy : UInt64 := 2
  deriving DecidableEq, Repr

/-- What a run of the controller reads. -/
structure Readings where
  /-- `getTotalObjSizeBytes()`, with the share of the fragmentation if that is tracked -/
  totalObjSize : UInt64
  currentNumEntries : UInt64
  freeMemBytes : UInt64
  rssBytes : UInt64
  deriving DecidableEq, Repr

structure SizeController where
  currentEntriesLimit : UInt64
  /-- `objCache_.getNumPlaceholders()` -/
  numPlaceholders : ℕ
  deriving DecidableEq, Repr

def kSizeControllerThresholdPct : UInt64 := 50

/-- `std::min` -/
def stdMin (a b : UInt64) : UInt64 := if b < a then b else a

theorem toNat_stdMin (a b : UInt64) : (stdMin a b).toNat = min a.toNat b.toNat := by
  rw [stdMin]
  split <;> rename_i h <;> rw [UInt64.lt_iff_toNat_lt] at h <;> omega

namespace Readings

def averageObjSize (r : Readings) : UInt64 := r.totalObjSize / r.currentNumEntries

end Readings

variable (cfg : Config) (r : Readings)

/-- The cache is warming up: few bytes, few entries, and room to grow. -/
def warmingUp (currentEntriesLimit : UInt64) : Bool :=
  let minEntriesWarmCacheThreshold := kSizeControllerThresholdPct * cfg.l1EntriesLimit / 100
  let totalObjectSizeWarmCacheThreshold :=
    kSizeControllerThresholdPct * cfg.totalObjectSizeLimit / 100
  r.totalObjSize < totalObjectSizeWarmCacheThreshold &&
    r.currentNumEntries < minEntriesWarmCacheThreshold &&
    r.currentNumEntries < currentEntriesLimit

/-- The middle of `work`: the limit for the total object size, made smaller by the memory readings
of the mode. -/
def limitByMemory : UInt64 :=
  let newEntriesLimit := cfg.totalObjectSizeLimit / r.averageObjSize
  match cfg.memoryMode with
  | .freeMemory =>
      if r.freeMemBytes < cfg.lowerLimitBytes then
        stdMin newEntriesLimit
          (r.currentNumEntries - (cfg.lowerLimitBytes - r.freeMemBytes) / r.averageObjSize)
      else if cfg.upperLimitBytes < r.freeMemBytes then
        stdMin newEntriesLimit
          (r.currentNumEntries + (cfg.upperLimitBytes - r.freeMemBytes) / r.averageObjSize)
      else newEntriesLimit
  | .residentMemory =>
      if cfg.upperLimitBytes < r.rssBytes then
        stdMin newEntriesLimit
          (r.currentNumEntries - (r.rssBytes - cfg.upperLimitBytes) / r.averageObjSize)
      else if r.rssBytes < cfg.lowerLimitBytes then
        stdMin newEntriesLimit
          (r.currentNumEntries + (cfg.lowerLimitBytes - r.rssBytes) / r.averageObjSize)
      else newEntriesLimit
  | .objectSize | .freeMemoryOnly => newEntriesLimit

/-- The entries limit that `work` computes, outside of `FreeMemoryOnly` mode. There is none if it
returns early. -/
def newEntriesLimit (currentEntriesLimit : UInt64) :
    Option UInt64 :=
  if r.currentNumEntries = 0 then none
  else if warmingUp cfg r currentEntriesLimit then none
  else if r.averageObjSize = 0 then none
  else some (stdMin (limitByMemory cfg r) cfg.l1EntriesLimit)

namespace SizeController

/-- One `allocatePlaceholder()` of the loop in `shrinkCacheByEntriesNum` -/
def shrinkByOne (c : SizeController) (allocated : Bool) : SizeController :=
  if allocated then
    { currentEntriesLimit := c.currentEntriesLimit - 1, numPlaceholders := c.numPlaceholders + 1 }
  else c

/-- `allocated i` says whether the placeholder of round `i` could be allocated. -/
def shrinkCacheByEntriesNum (c : SizeController) (entries : UInt64) (allocated : ℕ → Bool) :
    SizeController :=
  (List.range entries.toNat).foldl (fun c i => c.shrinkByOne (allocated i)) c

def expandCacheByEntriesNum (c : SizeController) (entries : UInt64) : SizeController :=
  let n := min entries.toNat c.numPlaceholders
  { currentEntriesLimit := c.currentEntriesLimit + UInt64.ofNat n
    numPlaceholders := c.numPlaceholders - n }

/-- The loop reads the free memory before each round. There is no result if the readings end
before it has reached the lower limit. -/
def ensureFreeMemoryAboveLowerLimit (cfg : Config) (allocated : ℕ → ℕ → Bool) :
    List UInt64 → SizeController → Option SizeController
  | [], _ => none
  | freeMemBytes :: readings, c =>
      if freeMemBytes < cfg.lowerLimitBytes then
        ensureFreeMemoryAboveLowerLimit cfg allocated readings
          (c.shrinkCacheByEntriesNum cfg.shrinkCacheBy (allocated readings.length))
      else some c

/-- What the environment gives to one run of the controller -/
structure Round where
  readings : Readings
  /-- The readings of `ensureFreeMemoryAboveLowerLimit` -/
  freeMemLater : List UInt64 := []
  allocated : ℕ → ℕ → Bool := fun _ _ => true

def work (cfg : Config) (c : SizeController) (round : Round) : Option SizeController :=
  let r := round.readings
  if cfg.memoryMode = .freeMemoryOnly then
    if r.freeMemBytes < cfg.lowerLimitBytes then
      c.ensureFreeMemoryAboveLowerLimit cfg round.allocated round.freeMemLater
    else if cfg.upperLimitBytes < r.freeMemBytes then
      some (c.expandCacheByEntriesNum cfg.expandCacheBy)
    else some c
  else
    match newEntriesLimit cfg r c.currentEntriesLimit with
    | none => some c
    | some limit =>
        if limit < c.currentEntriesLimit ∧ limit ≤ r.currentNumEntries then
          some (c.shrinkCacheByEntriesNum (c.currentEntriesLimit - limit) (round.allocated 0))
        else if c.currentEntriesLimit < limit ∧ r.currentNumEntries = c.currentEntriesLimit then
          some (c.expandCacheByEntriesNum (limit - c.currentEntriesLimit))
        else some c

end SizeController

/-! ## The bounds on the computed limit -/

/-- By how much the memory is short, if it is. -/
def shortage : ℕ :=
  match cfg.memoryMode with
  | .freeMemory => cfg.lowerLimitBytes.toNat - r.freeMemBytes.toNat
  | .residentMemory => r.rssBytes.toNat - cfg.upperLimitBytes.toNat
  | .objectSize | .freeMemoryOnly => 0

/-- How much memory there is to spare, if there is. -/
def spareMemory : ℕ :=
  match cfg.memoryMode with
  | .freeMemory => r.freeMemBytes.toNat - cfg.upperLimitBytes.toNat
  | .residentMemory => cfg.lowerLimitBytes.toNat - r.rssBytes.toNat
  | .objectSize | .freeMemoryOnly => 0

/-- The limit for the total object size -/
def sizeLimit : ℕ :=
  cfg.totalObjectSizeLimit.toNat / r.averageObjSize.toNat

/-- The bounds that a computed limit is meant to be within -/
structure Bounded (limit : UInt64) : Prop where
  size : limit.toNat ≤ sizeLimit cfg r
  entries : limit.toNat ≤ cfg.l1EntriesLimit.toNat
  shrink : 0 < shortage cfg r →
    limit.toNat ≤ r.currentNumEntries.toNat - shortage cfg r / r.averageObjSize.toNat
  expand : 0 < spareMemory cfg r →
    limit.toNat ≤ r.currentNumEntries.toNat + spareMemory cfg r / r.averageObjSize.toNat

/-- Neither of the two differences that wrap around decides the limit. -/
structure Unwrapped : Prop where
  /-- There are as many entries as have to go, or none are allowed anyway. -/
  shrink : shortage cfg r / r.averageObjSize.toNat ≤ r.currentNumEntries.toNat ∨
    sizeLimit cfg r = 0 ∨ cfg.l1EntriesLimit = 0
  /-- The spare memory does not matter, or the wrapped difference gives no more entries than the
  right one, or it wraps around once more when the entries are added. -/
  expand : cfg.memoryMode = .freeMemory → shortage cfg r = 0 → 0 < spareMemory cfg r →
    min (sizeLimit cfg r) cfg.l1EntriesLimit.toNat
        ≤ r.currentNumEntries.toNat + spareMemory cfg r / r.averageObjSize.toNat ∨
      (2 ^ 64 - spareMemory cfg r) / r.averageObjSize.toNat
        ≤ spareMemory cfg r / r.averageObjSize.toNat ∨
      2 ^ 64 ≤ r.currentNumEntries.toNat
        + (2 ^ 64 - spareMemory cfg r) / r.averageObjSize.toNat

/-! ## The limit as a number, branch by branch -/

section Branches

variable {cfg} {r}

/-- A difference the wrong way round -/
theorem toNat_sub_of_lt {a b : UInt64} (h : a < b) :
    (a - b).toNat = 2 ^ 64 - (b.toNat - a.toNat) := by
  rw [UInt64.lt_iff_toNat_lt] at h
  have hb := b.toNat_lt
  rw [UInt64.toNat_sub]
  omega

theorem lt_of_sub_pos {a b : UInt64} (h : 0 < b.toNat - a.toNat) : a < b :=
  UInt64.lt_iff_toNat_lt.mpr (Nat.lt_of_sub_pos h)

theorem not_lt_of_sub_eq_zero {a b : UInt64} (h : b.toNat - a.toNat = 0) : ¬ a < b := by
  rw [UInt64.lt_iff_toNat_lt]
  omega

theorem toNat_sizeLimit (cfg : Config) (r : Readings) :
    (cfg.totalObjectSizeLimit / r.averageObjSize).toNat = sizeLimit cfg r :=
  UInt64.toNat_div _ _

theorem toNat_limitByMemory_of_short (hshort : 0 < shortage cfg r) :
    (limitByMemory cfg r).toNat
      = min (sizeLimit cfg r)
          ((2 ^ 64 - shortage cfg r / r.averageObjSize.toNat + r.currentNumEntries.toNat)
            % 2 ^ 64) := by
  unfold shortage at hshort ⊢
  cases hmode : cfg.memoryMode with
  | freeMemory | residentMemory =>
      simp only [hmode] at hshort ⊢
      have hlt := lt_of_sub_pos hshort
      simp only [limitByMemory, hmode]
      rw [if_pos hlt, toNat_stdMin, toNat_sizeLimit, UInt64.toNat_sub, UInt64.toNat_div,
        UInt64.toNat_sub_of_le _ _ (UInt64.le_of_lt hlt)]
  | objectSize | freeMemoryOnly => simp [hmode] at hshort

theorem toNat_limitByMemory_of_spare_resident (hmode : cfg.memoryMode = .residentMemory)
    (hshort : shortage cfg r = 0) (hspare : 0 < spareMemory cfg r) :
    (limitByMemory cfg r).toNat
      = min (sizeLimit cfg r)
          ((r.currentNumEntries.toNat + spareMemory cfg r / r.averageObjSize.toNat) % 2 ^ 64) := by
  simp only [shortage, spareMemory, hmode] at hshort hspare ⊢
  have hlt := lt_of_sub_pos hspare
  simp only [limitByMemory, hmode]
  rw [if_neg (not_lt_of_sub_eq_zero hshort), if_pos hlt, toNat_stdMin, toNat_sizeLimit,
    UInt64.toNat_add, UInt64.toNat_div,UInt64.toNat_sub_of_le _ _ (UInt64.le_of_lt hlt)]

/-- The free-memory mode has the difference the wrong way round. -/
theorem toNat_limitByMemory_of_spare_free (hmode : cfg.memoryMode = .freeMemory)
    (hshort : shortage cfg r = 0) (hspare : 0 < spareMemory cfg r) :
    (limitByMemory cfg r).toNat
      = min (sizeLimit cfg r)
          ((r.currentNumEntries.toNat + (2 ^ 64 - spareMemory cfg r) / r.averageObjSize.toNat)
            % 2 ^ 64) := by
  simp only [shortage, spareMemory, hmode] at hshort hspare ⊢
  have hlt := lt_of_sub_pos hspare
  simp only [limitByMemory, hmode]
  rw [if_neg (not_lt_of_sub_eq_zero hshort), if_pos hlt, toNat_stdMin, toNat_sizeLimit,
    UInt64.toNat_add, UInt64.toNat_div,toNat_sub_of_lt hlt]

theorem toNat_limitByMemory_of_neither (hshort : shortage cfg r = 0)
    (hspare : spareMemory cfg r = 0) : (limitByMemory cfg r).toNat = sizeLimit cfg r := by
  simp only [shortage, spareMemory] at hshort hspare
  rw [← toNat_sizeLimit]
  cases hmode : cfg.memoryMode <;> simp only [hmode] at hshort hspare <;>
    simp only [limitByMemory, hmode]
  · rw [if_neg (not_lt_of_sub_eq_zero hshort), if_neg (not_lt_of_sub_eq_zero hspare)]
  · rw [if_neg (not_lt_of_sub_eq_zero hshort), if_neg (not_lt_of_sub_eq_zero hspare)]

theorem toNat_newEntriesLimit {currentEntriesLimit limit : UInt64}
    (hlimit : newEntriesLimit cfg r currentEntriesLimit = some limit) :
    limit.toNat = min (limitByMemory cfg r).toNat cfg.l1EntriesLimit.toNat := by
  simp only [newEntriesLimit, Option.ite_none_left_eq_some, Option.some.injEq] at hlimit
  rw [← hlimit.2.2.2, toNat_stdMin]

end Branches

/-! ## When the limit is within its bounds -/

/-- A subtraction that may wrap around, below two other limits -/
theorem shrunk_le_iff {size entries current gone : ℕ} (hgone : gone < 2 ^ 64)
    (hcurrent : current < 2 ^ 64) :
    min (min size ((2 ^ 64 - gone + current) % 2 ^ 64)) entries ≤ current - gone
      ↔ gone ≤ current ∨ size = 0 ∨ entries = 0 := by
  omega

/-- An addition of too much, which may wrap around, below two other limits -/
theorem expanded_le_iff {size entries current added room : ℕ} (hadded : added < 2 ^ 64)
    (hcurrent : current < 2 ^ 64) :
    min (min size ((current + added) % 2 ^ 64)) entries ≤ current + room
      ↔ min size entries ≤ current + room ∨ added ≤ room ∨ 2 ^ 64 ≤ current + added := by
  omega

theorem shortage_div_lt :
    shortage cfg r / r.averageObjSize.toNat < 2 ^ 64 := by
  have hlower := cfg.lowerLimitBytes.toNat_lt
  have hrss := r.rssBytes.toNat_lt
  apply Nat.lt_of_le_of_lt (Nat.div_le_self _ _)
  unfold shortage
  split <;> omega

section Cases

variable {cfg} {r} {limit : UInt64}
  (hlimit : limit.toNat = min (limitByMemory cfg r).toNat cfg.l1EntriesLimit.toNat)

include hlimit

theorem bounded_iff_of_short (hshort : 0 < shortage cfg r) :
    Bounded cfg r limit ↔ Unwrapped cfg r := by
  rw [toNat_limitByMemory_of_short hshort] at hlimit
  have hentries : cfg.l1EntriesLimit.toNat = 0 ↔ cfg.l1EntriesLimit = 0 :=
    UInt64.toNat_inj (b := 0)
  have hiff : limit.toNat ≤ r.currentNumEntries.toNat - shortage cfg r / r.averageObjSize.toNat
      ↔ shortage cfg r / r.averageObjSize.toNat ≤ r.currentNumEntries.toNat ∨
        sizeLimit cfg r = 0 ∨ cfg.l1EntriesLimit = 0 := by
    rw [hlimit, ← hentries]
    exact shrunk_le_iff (shortage_div_lt cfg r) r.currentNumEntries.toNat_lt
  constructor
  · intro hbounded
    exact ⟨hiff.mp (hbounded.shrink hshort), fun _ hno => absurd hshort (by omega)⟩
  · rintro ⟨hshrink, -⟩
    have hle := hiff.mpr hshrink
    refine ⟨by omega, by omega, fun _ => hle, fun _ => ?_⟩
    exact Nat.le_trans hle (Nat.le_trans (Nat.sub_le _ _) (Nat.le_add_right _ _))

theorem bounded_iff_of_spare
    (hmode : cfg.memoryMode = .freeMemory ∨ cfg.memoryMode = .residentMemory)
    (hshort : shortage cfg r = 0) (hspare : 0 < spareMemory cfg r) :
    Bounded cfg r limit ↔ Unwrapped cfg r := by
  have hnone : shortage cfg r / r.averageObjSize.toNat ≤ r.currentNumEntries.toNat := by
    rw [hshort, Nat.zero_div]
    apply Nat.zero_le
  rcases hmode with hmode | hmode
  · rw [toNat_limitByMemory_of_spare_free hmode hshort hspare] at hlimit
    have hwrapped : (2 ^ 64 - spareMemory cfg r) / r.averageObjSize.toNat < 2 ^ 64 := by
      apply Nat.lt_of_le_of_lt (Nat.div_le_self _ _)
      omega
    have hiff := @expanded_le_iff (sizeLimit cfg r) cfg.l1EntriesLimit.toNat _ _
      (spareMemory cfg r / r.averageObjSize.toNat) hwrapped r.currentNumEntries.toNat_lt
    rw [← hlimit] at hiff
    constructor
    · intro hbounded
      exact ⟨Or.inl hnone, fun _ _ _ => hiff.mp (hbounded.expand hspare)⟩
    · rintro ⟨-, hexpand⟩
      have hle := hiff.mpr (hexpand hmode hshort hspare)
      exact ⟨by omega, by omega, fun hno => absurd hno (by omega), fun _ => hle⟩
  -- Here the sum can only wrap around to something smaller.
  · rw [toNat_limitByMemory_of_spare_resident hmode hshort hspare] at hlimit
    constructor
    · intro _
      refine ⟨Or.inl hnone, fun hfree => ?_⟩
      rw [hmode] at hfree
      exact absurd hfree (by decide)
    · intro _
      refine ⟨by omega, by omega, fun hno => absurd hno (by omega), fun _ => ?_⟩
      calc limit.toNat
          ≤ (r.currentNumEntries.toNat + spareMemory cfg r / r.averageObjSize.toNat) % 2 ^ 64 := by
            omega
        _ ≤ r.currentNumEntries.toNat + spareMemory cfg r / r.averageObjSize.toNat :=
            Nat.mod_le _ _

theorem bounded_iff_of_neither (hshort : shortage cfg r = 0) (hspare : spareMemory cfg r = 0) :
    Bounded cfg r limit ↔ Unwrapped cfg r := by
  rw [toNat_limitByMemory_of_neither hshort hspare] at hlimit
  constructor
  · intro _
    refine ⟨Or.inl ?_, fun _ _ hno => absurd hno (by omega)⟩
    rw [hshort, Nat.zero_div]
    apply Nat.zero_le
  · intro _
    refine ⟨?_, ?_, fun hno => absurd hno (by omega), fun hno => absurd hno (by omega)⟩ <;> omega

end Cases

/-- **The limit that a run of the controller computes** is within its bounds exactly when no
difference that wraps around decides it. -/
theorem newEntriesLimit_bounded_iff (cfg : Config) (r : Readings)
    (currentEntriesLimit limit : UInt64)
    (hmode : cfg.memoryMode = .freeMemory ∨ cfg.memoryMode = .residentMemory)
    (hlimit : newEntriesLimit cfg r currentEntriesLimit = some limit) :
    Bounded cfg r limit ↔ Unwrapped cfg r := by
  have hnat := toNat_newEntriesLimit hlimit
  rcases Nat.eq_zero_or_pos (shortage cfg r) with hshort | hshort
  · rcases Nat.eq_zero_or_pos (spareMemory cfg r) with hspare | hspare
    · exact bounded_iff_of_neither hnat hshort hspare
    · exact bounded_iff_of_spare hnat hmode hshort hspare
  · exact bounded_iff_of_short hnat hshort

/-- A cache that may have five thousand bytes of objects and has to leave a hundred bytes free. -/
def tightMemory : Config :=
  { l1EntriesLimit := 1000, totalObjectSizeLimit := 5000, memoryMode := .freeMemory
    lowerLimitBytes := 100, upperLimitBytes := 200 }

/-- A hundred objects of ten bytes, and fifty bytes too few: five of them have to go. -/
theorem newEntriesLimit_bounded_iff_tightMemory :
    newEntriesLimit tightMemory ⟨1000, 100, 50, 0⟩ 100 = some 95 ∧
      Bounded tightMemory ⟨1000, 100, 50, 0⟩ 95 := by
  have hlimit : newEntriesLimit tightMemory ⟨1000, 100, 50, 0⟩ 100 = some 95 := by decide +kernel
  refine ⟨hlimit, ?_⟩
  apply (newEntriesLimit_bounded_iff _ _ _ _ (Or.inl rfl) hlimit).mpr
  refine ⟨?_, ?_⟩
  · decide +kernel
  · decide +kernel

/-- Eleven hundred bytes are missing, and there are only a hundred objects of ten bytes: the limit
should be zero, and is five hundred. -/
theorem limit_above_its_bounds :
    (newEntriesLimit { tightMemory with lowerLimitBytes := 1100 } ⟨1000, 100, 0, 0⟩ 100 = some 500 ∧
        ¬ Bounded { tightMemory with lowerLimitBytes := 1100 } ⟨1000, 100, 0, 0⟩ 500) ∧
      newEntriesLimit tightMemory ⟨1000, 100, 400, 0⟩ 100 = some 500 ∧
        ¬ Bounded tightMemory ⟨1000, 100, 400, 0⟩ 500 := by
  refine ⟨⟨by decide +kernel, ?_⟩, by decide +kernel, ?_⟩
  · intro hbounded
    have hshrink := hbounded.shrink (by decide +kernel)
    revert hshrink
    decide +kernel
  · intro hbounded
    have hexpand := hbounded.expand (by decide +kernel)
    revert hexpand
    decide +kernel

/-! ## The current limit and the placeholders -/

/-- `util::getDivCeiling` -/
def getDivCeiling (x y : ℕ) : ℕ := (x + y - 1) / y

/-- What `ObjectCache::init` sizes the pools with; `allocsPerSlab` is `Slab::kSize / l1AllocSize`. -/
structure PoolSizes where
  l1NumShards : ℕ
  allocsPerSlab : ℕ
  deriving DecidableEq, Repr

/-- The allocations that all pools have room for -/
def PoolSizes.capacity (p : PoolSizes) (cfg : Config) : ℕ :=
  getDivCeiling (getDivCeiling cfg.l1EntriesLimit.toNat p.l1NumShards) p.allocsPerSlab
    * p.allocsPerSlab * p.l1NumShards

/-- The placeholders that `ObjectCache::init` allocates -/
def PoolSizes.l1PlaceHolders (p : PoolSizes) (cfg : Config) : ℕ :=
  let allocsPerShard := getDivCeiling cfg.l1EntriesLimit.toNat p.l1NumShards
  let slabsPerShard := getDivCeiling allocsPerShard p.allocsPerSlab
  let l1PlaceHoldersPerShard := slabsPerShard * p.allocsPerSlab - allocsPerShard
  let extraLimit := allocsPerShard * p.l1NumShards - cfg.l1EntriesLimit.toNat
  l1PlaceHoldersPerShard * p.l1NumShards + extraLimit

theorem le_getDivCeiling_mul (x : ℕ) {y : ℕ} (hy : 0 < y) : x ≤ getDivCeiling x y * y := by
  have h := Nat.lt_mul_div_succ (x + y - 1) hy
  unfold getDivCeiling
  rw [Nat.mul_add, Nat.mul_one, Nat.mul_comm] at h
  omega

theorem PoolSizes.limit_add_l1PlaceHolders (p : PoolSizes) (cfg : Config)
    (hshards : 0 < p.l1NumShards) (hallocs : 0 < p.allocsPerSlab) :
    cfg.l1EntriesLimit.toNat + p.l1PlaceHolders cfg = p.capacity cfg := by
  unfold l1PlaceHolders capacity
  dsimp only
  have hlimit := le_getDivCeiling_mul cfg.l1EntriesLimit.toNat hshards
  have hslabs := Nat.mul_le_mul_right p.l1NumShards
    (le_getDivCeiling_mul (getDivCeiling cfg.l1EntriesLimit.toNat p.l1NumShards) hallocs)
  rw [Nat.sub_mul]
  omega

namespace SizeController

/-- A cache that `ObjectCache::init` has made -/
def init (cfg : Config) (p : PoolSizes) : SizeController where
  currentEntriesLimit := cfg.l1EntriesLimit
  numPlaceholders := p.l1PlaceHolders cfg

/-- One run of the controller, with no more placeholders than the pools have room for. -/
def step (cfg : Config) (p : PoolSizes) (c : SizeController) (round : Round) :
    Option SizeController :=
  (c.work cfg round).filter fun c' => c'.numPlaceholders ≤ p.capacity cfg

/-- `k` placeholders have been allocated. -/
def shrunk (c : SizeController) (k : ℕ) : SizeController :=
  ⟨c.currentEntriesLimit - UInt64.ofNat k, c.numPlaceholders + k⟩

variable {cfg : Config} {c c' : SizeController}

theorem shrunk_shrunk (c : SizeController) (j k : ℕ) : (c.shrunk j).shrunk k = c.shrunk (j + k) := by
  simp only [shrunk, UInt64.ofNat_add, Nat.add_assoc]
  grind

theorem shrinkCacheByEntriesNum_eq (c : SizeController) (entries : UInt64) (allocated : ℕ → Bool) :
    ∃ k, c.shrinkCacheByEntriesNum entries allocated = c.shrunk k := by
  unfold shrinkCacheByEntriesNum
  -- Each round allocates one placeholder or none.
  induction List.range entries.toNat generalizing c with
  | nil => exact ⟨0, by simp [shrunk]⟩
  | cons i is ih =>
      obtain ⟨k, hk⟩ := ih (c.shrinkByOne (allocated i))
      rw [List.foldl_cons, hk, shrinkByOne]
      split
      · exact ⟨1 + k, shrunk_shrunk c 1 k⟩
      · exact ⟨k, rfl⟩

theorem ensureFreeMemoryAboveLowerLimit_eq {allocated : ℕ → ℕ → Bool} {readings : List UInt64}
    (h : c.ensureFreeMemoryAboveLowerLimit cfg allocated readings = some c') :
    ∃ k, c' = c.shrunk k := by
  induction readings generalizing c with
  | nil => exact absurd h (by simp [ensureFreeMemoryAboveLowerLimit])
  | cons freeMemBytes readings ih =>
      rw [ensureFreeMemoryAboveLowerLimit] at h
      split at h
      · obtain ⟨j, hj⟩ := shrinkCacheByEntriesNum_eq c cfg.shrinkCacheBy (allocated readings.length)
        obtain ⟨k, hk⟩ := ih h
        exact ⟨j + k, by rw [hk, hj, shrunk_shrunk]⟩
      · exact ⟨0, by simp [shrunk, ← Option.some.inj h]⟩

/-- **The condition.** A run in `FreeMemoryOnly` mode that finds memory to spare does not give back
more placeholders than the limit is short of the configured one. -/
def GivesBackWhatItTook (cfg : Config) (c : SizeController) (round : Round) : Prop :=
  cfg.memoryMode = .freeMemoryOnly → cfg.lowerLimitBytes ≤ round.readings.freeMemBytes →
    cfg.upperLimitBytes < round.readings.freeMemBytes →
    c.currentEntriesLimit.toNat + min cfg.expandCacheBy.toNat c.numPlaceholders
      ≤ cfg.l1EntriesLimit.toNat

instance (cfg : Config) (c : SizeController) (round : Round) :
    Decidable (GivesBackWhatItTook cfg c round) :=
  inferInstanceAs (Decidable (_ → _ → _ → _))

theorem work_cases {round : Round} (h : c.work cfg round = some c') :
    (∃ k, c' = c.shrunk k) ∨ ∃ entries, c' = c.expandCacheByEntriesNum entries ∧
      (GivesBackWhatItTook cfg c round →
        c.currentEntriesLimit.toNat + min entries.toNat c.numPlaceholders
          ≤ cfg.l1EntriesLimit.toNat) := by
  have hsame : (∃ k, c = c.shrunk k) := ⟨0, by simp [shrunk]⟩
  unfold work at h
  dsimp only at h
  split_ifs at h with hmode hlow hhigh
  · exact Or.inl (ensureFreeMemoryAboveLowerLimit_eq h)
  · exact Or.inr ⟨_, (Option.some.inj h).symm, fun hc => hc hmode (UInt64.not_lt.mp hlow) hhigh⟩
  · exact Or.inl (Option.some.inj h ▸ hsame)
  · split at h
    · exact Or.inl (Option.some.inj h ▸ hsame)
    · rename_i limit hlimit
      split_ifs at h with hshrink hexpand
      · exact Or.inl (Option.some.inj h ▸ shrinkCacheByEntriesNum_eq _ _ _)
      · refine Or.inr ⟨_, (Option.some.inj h).symm, fun _ => ?_⟩
        have hle := toNat_newEntriesLimit hlimit
        have hlt := UInt64.lt_iff_toNat_lt.mp hexpand.1
        rw [UInt64.toNat_sub_of_le _ _ (UInt64.le_of_lt hexpand.1)]
        omega
      · exact Or.inl (Option.some.inj h ▸ hsame)

theorem step_balanced {p : PoolSizes} (hwords : p.capacity cfg < 2 ^ 64) {round : Round}
    (hsum : c.currentEntriesLimit.toNat + c.numPlaceholders = p.capacity cfg)
    (h : c.step cfg p round = some c') :
    c'.currentEntriesLimit.toNat + c'.numPlaceholders = p.capacity cfg ∧
      (GivesBackWhatItTook cfg c round → c.currentEntriesLimit ≤ cfg.l1EntriesLimit →
        c'.currentEntriesLimit ≤ cfg.l1EntriesLimit) := by
  obtain ⟨hwork, hroom⟩ := Option.filter_eq_some_iff.mp h
  simp only [UInt64.le_iff_toNat_le]
  rcases work_cases hwork with ⟨k, rfl⟩ | ⟨entries, rfl, hback⟩
  · -- No more placeholders have been allocated than the limit can go down by.
    have hle : c.numPlaceholders + k ≤ p.capacity cfg := of_decide_eq_true hroom
    have hlt : k < 2 ^ 64 := by omega
    have hk : (UInt64.ofNat k).toNat = k := UInt64.toNat_ofNat_of_lt' hlt
    have hlimit : UInt64.ofNat k ≤ c.currentEntriesLimit := by
      rw [UInt64.le_iff_toNat_le, hk]
      omega
    simp only [shrunk, UInt64.toNat_sub_of_le _ _ hlimit, hk]
    omega
  · have hlt : min entries.toNat c.numPlaceholders < 2 ^ 64 := by omega
    have hn := UInt64.toNat_ofNat_of_lt' hlt
    simp only [expandCacheByEntriesNum, UInt64.toNat_add, hn]
    refine ⟨by omega, fun hround _ => ?_⟩
    have hle := hback hround
    omega

/-- **The limit along every run.** With the placeholders it always makes up the same number; it
stays within the configured limit if only those placeholders are given back that were taken from
it. -/
theorem entriesLimit_of_exec (cfg : Config) (p : PoolSizes) (hshards : 0 < p.l1NumShards)
    (hallocs : 0 < p.allocsPerSlab) (hwords : p.capacity cfg < 2 ^ 64) {rounds : List Round}
    (hrun : exec (step cfg p) (init cfg p) rounds = some c) :
    c.currentEntriesLimit.toNat + c.numPlaceholders
        = cfg.l1EntriesLimit.toNat + p.l1PlaceHolders cfg ∧
      (Along (step cfg p) (GivesBackWhatItTook cfg) (init cfg p) rounds →
        c.currentEntriesLimit ≤ cfg.l1EntriesLimit) := by
  rw [p.limit_add_l1PlaceHolders cfg hshards hallocs]
  have hinit := p.limit_add_l1PlaceHolders cfg hshards hallocs
  refine ⟨exec_invariant (fun _ _ _ hsum h => (step_balanced hwords hsum h).1) hrun hinit, ?_⟩
  intro hback
  let Inv (c : SizeController) : Prop := c.currentEntriesLimit.toNat + c.numPlaceholders
    = p.capacity cfg ∧ c.currentEntriesLimit ≤ cfg.l1EntriesLimit
  suffices hall : Inv c from hall.2
  refine exec_invariant_along ?_ hrun hback ⟨hinit, UInt64.le_refl _⟩
  intro c round c' ⟨hsum, hle⟩ hround h
  obtain ⟨hsum', hkept⟩ := step_balanced hwords hsum h
  exact ⟨hsum', hkept hround hle⟩

/-- Pools of one shard, with allocations of 64 bytes -/
def onePool : PoolSizes := ⟨1, 65536⟩

def freeMemoryOnly : Config := { tightMemory with memoryMode := .freeMemoryOnly }

/-- Fifty bytes are free, then a hundred and fifty. -/
def memoryShort : Round := { readings := ⟨0, 0, 50, 0⟩, freeMemLater := [50, 150] }

def memoryToSpare : Round := { readings := ⟨0, 0, 300, 0⟩ }

/-- Eight entries less, then two more. -/
theorem entriesLimit_of_exec_shrunk :
    ∃ c, exec (step freeMemoryOnly onePool) (init freeMemoryOnly onePool)
        [memoryShort, memoryToSpare] = some c ∧
      c.currentEntriesLimit = 994 ∧ c.currentEntriesLimit ≤ freeMemoryOnly.l1EntriesLimit := by
  obtain ⟨c, hrun, hlimit⟩ : ∃ c, exec (step freeMemoryOnly onePool)
      (init freeMemoryOnly onePool) [memoryShort, memoryToSpare] = some c ∧
        c.currentEntriesLimit = 994 := by decide +kernel
  have hall := entriesLimit_of_exec _ _ (by decide) (by decide) (by decide) hrun
  exact ⟨c, hrun, hlimit, hall.2 (by decide +kernel)⟩

/-- With memory to spare from the start, two placeholders go that `init` made to keep the cache
within its limit. -/
theorem limit_above_configured :
    ∃ c, exec (step freeMemoryOnly onePool) (init freeMemoryOnly onePool) [memoryToSpare] = some c ∧
      c.currentEntriesLimit = 1002 ∧ ¬ c.currentEntriesLimit ≤ freeMemoryOnly.l1EntriesLimit := by
  decide +kernel

end SizeController

end CacheLib.ObjectCache
