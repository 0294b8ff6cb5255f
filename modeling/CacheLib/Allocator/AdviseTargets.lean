/-
How many slabs each pool should advise away or reclaim
(`MemoryPoolManager::calcNumSlabsToAdviseReclaim`).

The number of slabs to advise is divided among the pools in proportion to the slabs that they
have in use. Each pool first gets the whole part of its share. What is left over is given out one
slab at a time, and the test for this (`targets[id] * totalSlabsInUse / numSlabsToAdvise`) finds
exactly the pools whose share is not whole, so there are enough of them. The pools below their
targets then advise, or those above reclaim, until the total is right.
-/
import CacheLib.Lib.Apportion
import CacheLib.Allocator.SlabConservation
import Mathlib.Data.List.Perm.Subperm

set_option autoImplicit false

namespace CacheLib

open List

open AllocationClass (Slab)

namespace MemoryPool

def getCurrentUsedSize (p : MemoryPool) : UInt64 :=
  p.currSlabAllocSize + UInt64.ofNat p.freeSlabs.length * kSlabSize

end MemoryPool

structure PoolAdviseReclaimData where
  /-- `poolAdviseReclaimMap` -/
  amounts : List (ℕ × UInt64) := []
  advise : Bool := false
  deriving DecidableEq, Repr

namespace MemoryAllocator

/-- A `std::set<PoolId>` of pools that there are, in its order. -/
structure PoolIds (m : MemoryAllocator) where
  ids : List ℕ
  sorted : ids.Pairwise (· < ·)
  valid : ∀ id ∈ ids, id < m.pools.length
  lt_kMaxPools : ∀ id ∈ ids, id < kMaxPools

/-- The slabs in use in the pool `id` -/
def numSlabsInUse (m : MemoryAllocator) (id : ℕ) : UInt64 :=
  (m.pools[id]?).elim 0 fun pool => pool.getCurrentUsedSize / kSlabSize

/-- `pools_[id]->getNumSlabsAdvised()` -/
def slabsAdvised (m : MemoryAllocator) (id : ℕ) : UInt64 :=
  (m.pools[id]?).elim 0 fun pool => pool.curSlabsAdvised

section Targets

variable (numSlabsToAdvise totalSlabsInUse : UInt64) (inUse : ℕ → UInt64)

/-- The first loop of `getTargetSlabsToAdvise`: the whole part of each share, and their sum. -/
def divideSlabs : List ℕ → UInt64 → (ℕ → UInt64) → UInt64 × (ℕ → UInt64)
  | [], sum, targets => (sum, targets)
  | id :: ids, sum, targets =>
      let target := inUse id * numSlabsToAdvise / totalSlabsInUse
      divideSlabs ids (sum + target) (Function.update targets id target)

/-- The second loop: one more slab for a pool that is below its share, as long as some are left. -/
def spreadRemainder : List ℕ → UInt64 → (ℕ → UInt64) → UInt64 × (ℕ → UInt64)
  | [], sum, targets => (sum, targets)
  | id :: ids, sum, targets =>
      if sum < numSlabsToAdvise then
        if targets id * totalSlabsInUse / numSlabsToAdvise < inUse id then
          spreadRemainder ids (sum + 1) (Function.update targets id (targets id + 1))
        else spreadRemainder ids sum targets
      else (sum, targets)

def getTargetSlabsToAdvise (poolIds : List ℕ) : ℕ → UInt64 :=
  let divided := divideSlabs numSlabsToAdvise totalSlabsInUse inUse poolIds 0 fun _ => 0
  (spreadRemainder numSlabsToAdvise totalSlabsInUse inUse poolIds divided.1 divided.2).2

end Targets

/-- `std::min` -/
def stdMin (a b : UInt64) : UInt64 := if b < a then b else a

/-- The two loops of `calcNumSlabsToAdviseReclaim`, which have the targets and the advised slabs in
opposite places: each pool gets what `lower` is below `upper`, up to what is left. -/
def assignSlabs (upper lower : ℕ → UInt64) : List ℕ → UInt64 → List (ℕ × UInt64)
  | [], _ => []
  | id :: ids, diff =>
      if diff = 0 then []
      else if upper id ≤ lower id then assignSlabs upper lower ids diff
      else
        let slabs := stdMin (upper id - lower id) diff
        (id, slabs) :: assignSlabs upper lower ids (diff - slabs)

/-- The sum of a counter over the pools -/
def sumOver (counter : ℕ → UInt64) (ids : List ℕ) : UInt64 :=
  ids.foldl (fun sum id => sum + counter id) 0

/-- The targets that `calcNumSlabsToAdviseReclaim` computes -/
def poolAdviseTargets (m : MemoryAllocator) (numSlabsToAdvise : UInt64) (poolIds : m.PoolIds) :
    ℕ → UInt64 :=
  getTargetSlabsToAdvise numSlabsToAdvise (sumOver m.numSlabsInUse poolIds.ids) m.numSlabsInUse
    poolIds.ids

def calcNumSlabsToAdviseReclaim (m : MemoryAllocator) (numSlabsToAdvise : UInt64)
    (poolIds : m.PoolIds) : PoolAdviseReclaimData :=
  let totalSlabsInUse := sumOver m.numSlabsInUse poolIds.ids
  let totalSlabsAdvised := sumOver m.slabsAdvised poolIds.ids
  -- No slabs in use or no slabs advised and no slabs to advise
  if totalSlabsInUse = 0 ∨ (numSlabsToAdvise = 0 ∧ totalSlabsAdvised = 0) then {}
  else
    let targets := m.poolAdviseTargets numSlabsToAdvise poolIds
    if totalSlabsAdvised < numSlabsToAdvise then
      { advise := true
        amounts := assignSlabs targets m.slabsAdvised poolIds.ids
          (numSlabsToAdvise - totalSlabsAdvised) }
    else
      { advise := false
        amounts := assignSlabs m.slabsAdvised targets poolIds.ids
          (totalSlabsAdvised - numSlabsToAdvise) }

/-! ## The targets -/

/-- A counter of the pools as numbers -/
def count (counter : ℕ → UInt64) (id : ℕ) : ℕ := (counter id).toNat

section Targets

open Apportion (share Uneven)

variable {numSlabsToAdvise totalSlabsInUse : UInt64} {inUse : ℕ → UInt64}

theorem toNat_target (totalSlabsInUse : UInt64) {id : ℕ}
    (hfits : (inUse id).toNat * numSlabsToAdvise.toNat < 2 ^ 64) :
    (inUse id * numSlabsToAdvise / totalSlabsInUse).toNat
      = share (count inUse) numSlabsToAdvise.toNat totalSlabsInUse.toNat id := by
  rw [UInt64.toNat_div, UInt64.toNat_mul, Nat.mod_eq_of_lt hfits]
  rfl

/-- The first loop writes the target of each pool of the set. -/
theorem divideSlabs_apply (ids : List ℕ) (sum : UInt64) (targets : ℕ → UInt64) (id : ℕ) :
    (divideSlabs numSlabsToAdvise totalSlabsInUse inUse ids sum targets).2 id
      = if id ∈ ids then inUse id * numSlabsToAdvise / totalSlabsInUse else targets id := by
  induction ids generalizing sum targets with
  | nil => simp [divideSlabs]
  | cons head ids ih =>
      rw [divideSlabs, ih]
      by_cases hmem : id ∈ ids
      · simp [hmem]
      · by_cases heq : id = head
        · simp [heq]
        · simp [hmem, heq]

theorem divideSlabs_sum (ids : List ℕ) (sum : UInt64) (targets : ℕ → UInt64)
    (hfits : ∀ id ∈ ids, (inUse id).toNat * numSlabsToAdvise.toNat < 2 ^ 64)
    (hsum : sum.toNat + (ids.map
      (share (count inUse) numSlabsToAdvise.toNat totalSlabsInUse.toNat)).sum < 2 ^ 64) :
    (divideSlabs numSlabsToAdvise totalSlabsInUse inUse ids sum targets).1.toNat
      = sum.toNat + (ids.map
          (share (count inUse) numSlabsToAdvise.toNat totalSlabsInUse.toNat)).sum := by
  induction ids generalizing sum targets with
  | nil => simp [divideSlabs]
  | cons id ids ih =>
      rw [map_cons, sum_cons] at hsum ⊢
      have htarget := toNat_target totalSlabsInUse (hfits id mem_cons_self)
      have hadd : (sum + inUse id * numSlabsToAdvise / totalSlabsInUse).toNat
          = sum.toNat
            + share (count inUse) numSlabsToAdvise.toNat totalSlabsInUse.toNat id := by
        rw [UInt64.toNat_add, htarget, Nat.mod_eq_of_lt (by omega)]
      rw [divideSlabs, ih _ _ (fun id' hid' => hfits id' (mem_cons_of_mem _ hid'))
        (by rw [hadd]; omega), hadd]
      omega

/-- The test of the second loop finds the pools whose share is not whole. -/
theorem remainder_test_iff {id : ℕ} {target : UInt64} (hpos : 0 < numSlabsToAdvise.toNat)
    (hfits : (inUse id).toNat * numSlabsToAdvise.toNat < 2 ^ 64)
    (htarget : target.toNat
      = share (count inUse) numSlabsToAdvise.toNat totalSlabsInUse.toNat id) :
    target * totalSlabsInUse / numSlabsToAdvise < inUse id ↔
      Uneven (count inUse) numSlabsToAdvise.toNat totalSlabsInUse.toNat id := by
  have hle := Apportion.share_mul_le (count inUse) numSlabsToAdvise.toNat totalSlabsInUse.toNat id
  have hproduct : (target * totalSlabsInUse).toNat
      = share (count inUse) numSlabsToAdvise.toNat totalSlabsInUse.toNat id
          * totalSlabsInUse.toNat := by
    rw [UInt64.toNat_mul, htarget, Nat.mod_eq_of_lt (hle.trans_lt hfits)]
  rw [UInt64.lt_iff_toNat_lt, UInt64.toNat_div, hproduct, Nat.div_lt_iff_lt_mul hpos]
  rfl

/-- What the second loop does to the pools it goes through. -/
structure Spread (numSlabsToAdvise totalSlabsInUse : UInt64) (inUse : ℕ → UInt64) (ids : List ℕ)
    (sum : UInt64) (targets : ℕ → UInt64) (r : UInt64 × (ℕ → UInt64)) : Prop where
  /-- It ends with all slabs given out, or after one for each uneven share. -/
  sum_eq : r.1.toNat = min numSlabsToAdvise.toNat (sum.toNat + ids.countP fun id =>
    decide (Uneven (count inUse) numSlabsToAdvise.toNat totalSlabsInUse.toNat id))
  of_notMem : ∀ id ∉ ids, r.2 id = targets id
  of_mem : ∀ id ∈ ids,
    (r.2 id).toNat = share (count inUse) numSlabsToAdvise.toNat totalSlabsInUse.toNat id ∨
      (Uneven (count inUse) numSlabsToAdvise.toNat totalSlabsInUse.toNat id ∧
        (r.2 id).toNat = share (count inUse) numSlabsToAdvise.toNat totalSlabsInUse.toNat id + 1)
  /-- The sum goes with the targets. -/
  balance : (ids.map (count r.2)).sum + sum.toNat = r.1.toNat
    + (ids.map (share (count inUse) numSlabsToAdvise.toNat totalSlabsInUse.toNat)).sum

theorem spreadRemainder_spec {ids : List ℕ} (sum : UInt64) (targets : ℕ → UInt64)
    (hnodup : ids.Nodup)
    (hfits : ∀ id ∈ ids, (inUse id).toNat * numSlabsToAdvise.toNat < 2 ^ 64)
    (htargets : ∀ id ∈ ids, (targets id).toNat
      = share (count inUse) numSlabsToAdvise.toNat totalSlabsInUse.toNat id)
    (htotal : 0 < totalSlabsInUse.toNat) (hsum : sum.toNat ≤ numSlabsToAdvise.toNat) :
    Spread numSlabsToAdvise totalSlabsInUse inUse ids sum targets
      (spreadRemainder numSlabsToAdvise totalSlabsInUse inUse ids sum targets) := by
  induction ids generalizing sum targets with
  | nil =>
      refine ⟨?_, fun _ _ => rfl, fun _ h => absurd h not_mem_nil, by simp [spreadRemainder]⟩
      simp only [spreadRemainder, countP_nil]
      omega
  | cons id ids ih =>
      obtain ⟨hnew, hnodup⟩ := nodup_cons.mp hnodup
      have hrest : ∀ id' ∈ ids, id' ≠ id := fun id' hid' heq => hnew (heq ▸ hid')
      have hfits' : ∀ id' ∈ ids, (inUse id').toNat * numSlabsToAdvise.toNat < 2 ^ 64 :=
        fun id' hid' => hfits id' (mem_cons_of_mem _ hid')
      have hid := htargets id mem_cons_self
      have htargets' := fun id' hid' => htargets id' (mem_cons_of_mem id hid')
      unfold spreadRemainder
      split
      · rename_i hleft
        rw [UInt64.lt_iff_toNat_lt] at hleft
        have hpos : 0 < numSlabsToAdvise.toNat := by omega
        have htest := remainder_test_iff hpos (hfits id mem_cons_self) hid
        split
        · -- one more slab for this pool
          rename_i hbelow
          rw [htest] at hbelow
          have hone : (sum + 1).toNat = sum.toNat + 1 := by
            have hlt := numSlabsToAdvise.toNat_lt
            rw [UInt64.toNat_add, UInt64.toNat_one, Nat.mod_eq_of_lt (by omega)]
          have hmore : (targets id + 1).toNat
              = share (count inUse) numSlabsToAdvise.toNat totalSlabsInUse.toNat id + 1 := by
            have hlt := hfits id mem_cons_self
            have hshare : share (count inUse) numSlabsToAdvise.toNat totalSlabsInUse.toNat id
                < (inUse id).toNat * numSlabsToAdvise.toNat :=
              (Nat.le_mul_of_pos_right _ htotal).trans_lt hbelow
            rw [UInt64.toNat_add, UInt64.toNat_one, hid, Nat.mod_eq_of_lt (by omega)]
          have hspread := ih (sum + 1) (Function.update targets id (targets id + 1)) hnodup hfits'
            (fun id' hid' => by
              rw [Function.update_of_ne (hrest id' hid')]
              exact htargets' id' hid') (by omega)
          have hself : (spreadRemainder numSlabsToAdvise totalSlabsInUse inUse ids (sum + 1)
              (Function.update targets id (targets id + 1))).2 id = targets id + 1 := by
            rw [hspread.of_notMem id hnew, Function.update_self]
          refine ⟨?_, ?_, ?_, ?_⟩
          · rw [hspread.sum_eq, hone, countP_cons, if_pos (decide_eq_true hbelow)]
            omega
          · intro id' hid'
            rw [mem_cons, not_or] at hid'
            rw [hspread.of_notMem id' hid'.2, Function.update_of_ne hid'.1]
          · intro id' hid'
            rcases mem_cons.mp hid' with rfl | hid'
            · rw [hself]
              exact Or.inr ⟨hbelow, hmore⟩
            · exact hspread.of_mem id' hid'
          · have hbalance := hspread.balance
            rw [map_cons, map_cons, sum_cons, sum_cons, count, hself, hmore]
            omega
        · rename_i hwhole
          rw [htest] at hwhole
          have hspread := ih sum targets hnodup hfits' htargets' hsum
          have hself := hspread.of_notMem id hnew
          refine ⟨?_, ?_, ?_, ?_⟩
          · rw [hspread.sum_eq, countP_cons, if_neg (by simpa using hwhole)]
            omega
          · intro id' hid'
            rw [mem_cons, not_or] at hid'
            exact hspread.of_notMem id' hid'.2
          · intro id' hid'
            rcases mem_cons.mp hid' with rfl | hid'
            · rw [hself]
              exact Or.inl hid
            · exact hspread.of_mem id' hid'
          · have hbalance := hspread.balance
            rw [map_cons, map_cons, sum_cons, sum_cons, count, hself, hid]
            omega
      · rename_i hdone
        rw [UInt64.lt_iff_toNat_lt] at hdone
        refine ⟨by dsimp only; omega, fun _ _ => rfl, fun id' hid' => Or.inl (htargets id' hid'), ?_⟩
        have hmap := map_congr_left (f := count targets) htargets
        dsimp only
        rw [hmap]
        omega

theorem getTargetSlabsToAdvise_spec {ids : List ℕ} (hnodup : ids.Nodup)
    (hfits : ∀ id ∈ ids, (inUse id).toNat * numSlabsToAdvise.toNat < 2 ^ 64)
    (htotal : (ids.map (count inUse)).sum = totalSlabsInUse.toNat)
    (hpos : 0 < totalSlabsInUse.toNat) :
    (ids.map (count (getTargetSlabsToAdvise numSlabsToAdvise totalSlabsInUse inUse ids))).sum
        = numSlabsToAdvise.toNat ∧
      ∀ id ∈ ids, |((getTargetSlabsToAdvise numSlabsToAdvise totalSlabsInUse inUse ids id).toNat : ℚ)
        - (inUse id).toNat * numSlabsToAdvise.toNat / totalSlabsInUse.toNat| < 1 := by
  have hle := Apportion.sum_share_le (count inUse) numSlabsToAdvise.toNat _ hpos htotal
  have henough :=
    Apportion.le_sum_share_add_countP (count inUse) numSlabsToAdvise.toNat _ hpos htotal
  have hlt := numSlabsToAdvise.toNat_lt
  have hzero : (0 : UInt64).toNat = 0 := rfl
  have hstart : (0 : UInt64).toNat + (ids.map
      (share (count inUse) numSlabsToAdvise.toNat totalSlabsInUse.toNat)).sum < 2 ^ 64 := by omega
  have hsum := divideSlabs_sum ids 0 (fun _ => 0) hfits hstart
  have hspread := spreadRemainder_spec
    (divideSlabs numSlabsToAdvise totalSlabsInUse inUse ids 0 fun _ => 0).1
    (divideSlabs numSlabsToAdvise totalSlabsInUse inUse ids 0 fun _ => 0).2 hnodup hfits
    (fun id hid => by
      rw [divideSlabs_apply, if_pos hid]
      exact toNat_target totalSlabsInUse (hfits id hid)) hpos (by omega)
  constructor
  · have hbalance := hspread.balance
    have hend := hspread.sum_eq
    rw [Nat.min_eq_left (by omega)] at hend
    dsimp only [getTargetSlabsToAdvise]
    omega
  · intro id hid
    exact Apportion.abs_sub_exact_lt_one hpos (hspread.of_mem id hid)

end Targets

/-! ## The amounts -/

section Amounts

variable {upper lower : ℕ → UInt64}

theorem toNat_stdMin (a b : UInt64) : (stdMin a b).toNat = min a.toNat b.toNat := by
  unfold stdMin
  split
  · rename_i hlt
    exact (Nat.min_eq_right (UInt64.lt_iff_toNat_lt.mp hlt).le).symm
  · rename_i hge
    rw [UInt64.lt_iff_toNat_lt, Nat.not_lt] at hge
    exact (Nat.min_eq_left hge).symm

/-- All is given out, unless the pools take less. -/
theorem assignSlabs_sum (ids : List ℕ) (diff : UInt64) :
    ((assignSlabs upper lower ids diff).map fun p => p.2.toNat).sum
      = min diff.toNat (ids.map fun id => count upper id - count lower id).sum := by
  induction ids generalizing diff with
  | nil => simp [assignSlabs]
  | cons id ids ih =>
      rw [assignSlabs, map_cons, sum_cons]
      split_ifs with hzero hle
      · simp [hzero]
      · rw [UInt64.le_iff_toNat_le] at hle
        rw [ih, count, count, Nat.sub_eq_zero_of_le hle, Nat.zero_add]
      · rw [UInt64.le_iff_toNat_le] at hle
        have hgap : (upper id - lower id).toNat = count upper id - count lower id :=
          UInt64.toNat_sub_of_le _ _ (UInt64.le_iff_toNat_le.mpr (by omega))
        have hmin := toNat_stdMin (upper id - lower id) diff
        have hrest : (diff - stdMin (upper id - lower id) diff).toNat
            = diff.toNat - (stdMin (upper id - lower id) diff).toNat :=
          UInt64.toNat_sub_of_le _ _ (UInt64.le_iff_toNat_le.mpr (by omega))
        rw [map_cons, sum_cons, ih, hrest]
        dsimp only
        omega

/-- No pool gets more than what it takes to its upper number. -/
theorem le_of_mem_assignSlabs {ids : List ℕ} {diff : UInt64} {p : ℕ × UInt64}
    (hp : p ∈ assignSlabs upper lower ids diff) :
    p.1 ∈ ids ∧ count lower p.1 + p.2.toNat ≤ count upper p.1 := by
  induction ids generalizing diff with
  | nil => simp [assignSlabs] at hp
  | cons id ids ih =>
      rw [assignSlabs] at hp
      split_ifs at hp with hzero hle
      · simp at hp
      · obtain ⟨hmem, hbound⟩ := ih hp
        exact ⟨mem_cons_of_mem _ hmem, hbound⟩
      · rcases mem_cons.mp hp with rfl | hp
        · rw [UInt64.le_iff_toNat_le] at hle
          have hgap : (upper id - lower id).toNat = (upper id).toNat - (lower id).toNat :=
            UInt64.toNat_sub_of_le _ _ (UInt64.le_iff_toNat_le.mpr (by omega))
          have hmin := toNat_stdMin (upper id - lower id) diff
          refine ⟨mem_cons_self, ?_⟩
          dsimp only [count]
          omega
        · obtain ⟨hmem, hbound⟩ := ih hp
          exact ⟨mem_cons_of_mem _ hmem, hbound⟩

/-- The pools come in the order of the set, each at most once. -/
theorem assignSlabs_sublist (ids : List ℕ) (diff : UInt64) :
    ((assignSlabs upper lower ids diff).map Prod.fst).Sublist ids := by
  induction ids generalizing diff with
  | nil => simp [assignSlabs]
  | cons id ids ih =>
      rw [assignSlabs]
      split_ifs
      · exact nil_sublist _
      · exact (ih diff).cons _
      · exact (ih _).cons_cons _

end Amounts

/-! ## The totals -/

theorem toNat_foldl_add (counter : ℕ → UInt64) (ids : List ℕ) (sum : UInt64)
    (hfits : sum.toNat + (ids.map (count counter)).sum < 2 ^ 64) :
    (ids.foldl (fun sum id => sum + counter id) sum).toNat
      = sum.toNat + (ids.map (count counter)).sum := by
  induction ids generalizing sum with
  | nil => simp
  | cons id ids ih =>
      rw [map_cons, sum_cons] at hfits ⊢
      have hadd : (sum + counter id).toNat = sum.toNat + count counter id := by
        rw [UInt64.toNat_add, Nat.mod_eq_of_lt]
        · rfl
        · rw [count] at hfits
          omega
      rw [foldl_cons, ih _ (by omega), hadd]
      omega

theorem toNat_sumOver {counter : ℕ → UInt64} {ids : List ℕ}
    (hfits : (ids.map (count counter)).sum < 2 ^ 64) :
    (sumOver counter ids).toNat = (ids.map (count counter)).sum := by
  have hzero : (0 : UInt64).toNat = 0 := rfl
  rw [sumOver, toNat_foldl_add counter ids 0 (by omega), hzero, Nat.zero_add]

variable {m : MemoryAllocator}

theorem PoolIds.nodup (poolIds : m.PoolIds) : poolIds.ids.Nodup :=
  poolIds.sorted.imp fun h => Nat.ne_of_lt h

theorem PoolIds.length_le (poolIds : m.PoolIds) : poolIds.ids.length ≤ kMaxPools := by
  have hsub : poolIds.ids ⊆ range kMaxPools :=
    fun id hid => mem_range.mpr (poolIds.lt_kMaxPools id hid)
  have hle := (Nodup.subperm poolIds.nodup hsub).length_le
  rwa [length_range] at hle

/-- A size in bytes has at most 2⁴² slabs. -/
theorem count_numSlabsInUse_le (id : ℕ) : count m.numSlabsInUse id ≤ 2 ^ 42 := by
  unfold count numSlabsInUse
  rcases m.pools[id]? with _ | pool
  · exact Nat.zero_le _
  · have hlt := pool.getCurrentUsedSize.toNat_lt
    have hslab : kSlabSize.toNat = 2 ^ 22 := by decide
    change (pool.getCurrentUsedSize / kSlabSize).toNat ≤ 2 ^ 42
    rw [UInt64.toNat_div, hslab]
    omega

/-- The number of slabs in use fits in 64 bits, as there are at most 64 pools. -/
theorem sum_numSlabsInUse_lt (poolIds : m.PoolIds) :
    (poolIds.ids.map (count m.numSlabsInUse)).sum < 2 ^ 64 := by
  have hsum : (poolIds.ids.map (count m.numSlabsInUse)).sum ≤ poolIds.ids.length * 2 ^ 42 := by
    have hle := sum_le_card_nsmul (poolIds.ids.map (count m.numSlabsInUse)) (2 ^ 42) (by
      intro slabs hslabs
      obtain ⟨id, -, rfl⟩ := mem_map.mp hslabs
      exact count_numSlabsInUse_le id)
    rwa [length_map, nsmul_eq_mul, Nat.cast_id] at hle
  have hlength := Nat.mul_le_mul_right (2 ^ 42) poolIds.length_le
  have hmax : kMaxPools = 64 := rfl
  omega

/-! ## The whole calculation -/

/-- What `calcNumSlabsToAdviseReclaim` should return for a target number of slabs. -/
structure AdvisesTo (m : MemoryAllocator) (target : UInt64) (poolIds : m.PoolIds)
    (targets : ℕ → UInt64) (r : PoolAdviseReclaimData) : Prop where
  targets_sum : (poolIds.ids.map (count targets)).sum = target.toNat
  /-- Each pool's target is less than one slab from its exact share. -/
  targets_near : ∀ id ∈ poolIds.ids, |((targets id).toNat : ℚ)
    - (m.numSlabsInUse id).toNat * target.toNat
        / (poolIds.ids.map (count m.numSlabsInUse)).sum| < 1
  amounts_nodup : (r.amounts.map Prod.fst).Nodup
  amounts_sum : (r.amounts.map fun p => p.2.toNat).sum
    = ((target.toNat : ℤ) - (poolIds.ids.map (count m.slabsAdvised)).sum).natAbs
  direction : r.advise = decide ((poolIds.ids.map (count m.slabsAdvised)).sum < target.toNat)
  /-- No pool is asked to go beyond its own target. -/
  amounts_le : ∀ p ∈ r.amounts, p.1 ∈ poolIds.ids ∧
    if r.advise then (m.slabsAdvised p.1).toNat + p.2.toNat ≤ (targets p.1).toNat
    else (targets p.1).toNat + p.2.toNat ≤ (m.slabsAdvised p.1).toNat

/-- **The amounts to advise or reclaim.** They bring the pools to the target number of slabs, with
targets in proportion to the slabs in use. Nothing is returned if no slab is in use. -/
theorem calcNumSlabsToAdviseReclaim_spec (numSlabsToAdvise : UInt64) (poolIds : m.PoolIds)
    (hproducts : ∀ id ∈ poolIds.ids,
      (m.numSlabsInUse id).toNat * numSlabsToAdvise.toNat < 2 ^ 64)
    (hadvised : (poolIds.ids.map (count m.slabsAdvised)).sum < 2 ^ 64) :
    if (poolIds.ids.map (count m.numSlabsInUse)).sum = 0 then
      m.calcNumSlabsToAdviseReclaim numSlabsToAdvise poolIds = {}
    else m.AdvisesTo numSlabsToAdvise poolIds (m.poolAdviseTargets numSlabsToAdvise poolIds)
      (m.calcNumSlabsToAdviseReclaim numSlabsToAdvise poolIds) := by
  have hinUse := toNat_sumOver (sum_numSlabsInUse_lt poolIds)
  have hadv := toNat_sumOver hadvised
  split
  · rename_i hnone
    have hzero : sumOver m.numSlabsInUse poolIds.ids = 0 :=
      UInt64.toNat_inj.mp (hinUse.trans hnone)
    rw [calcNumSlabsToAdviseReclaim, if_pos (Or.inl hzero)]
  · rename_i hsome
    have hne : sumOver m.numSlabsInUse poolIds.ids ≠ 0 := by
      intro hzero
      rw [hzero] at hinUse
      exact hsome hinUse.symm
    obtain ⟨hsum, hnear⟩ := getTargetSlabsToAdvise_spec poolIds.nodup hproducts hinUse.symm
      (by omega)
    rw [hinUse] at hnear
    have hbelow := Apportion.sum_sub_sum_le (count (m.poolAdviseTargets numSlabsToAdvise poolIds))
      (count m.slabsAdvised) poolIds.ids
    have habove := Apportion.sum_sub_sum_le (count m.slabsAdvised)
      (count (m.poolAdviseTargets numSlabsToAdvise poolIds)) poolIds.ids
    have hsum' : (poolIds.ids.map
        (count (m.poolAdviseTargets numSlabsToAdvise poolIds))).sum = numSlabsToAdvise.toNat := hsum
    rw [calcNumSlabsToAdviseReclaim]
    split_ifs with hnothing hless
    · -- nothing is advised and nothing should be
      obtain ⟨hzero, hzero'⟩ := hnothing.resolve_left hne
      rw [hzero'] at hadv
      refine ⟨hsum', hnear, nodup_nil, ?_, ?_, fun p hp => absurd hp not_mem_nil⟩
      · rw [hzero, ← hadv]
        rfl
      · rw [hzero]
        exact (decide_eq_false (Nat.not_lt_zero _)).symm
    · rw [UInt64.lt_iff_toNat_lt, hadv] at hless
      refine ⟨hsum', hnear, poolIds.nodup.sublist (assignSlabs_sublist _ _), ?_,
        (decide_eq_true hless).symm, fun p hp => le_of_mem_assignSlabs hp⟩
      rw [assignSlabs_sum, UInt64.toNat_sub_of_le _ _ (UInt64.le_iff_toNat_le.mpr (by omega)), hadv]
      omega
    · rw [UInt64.lt_iff_toNat_lt, hadv] at hless
      refine ⟨hsum', hnear, poolIds.nodup.sublist (assignSlabs_sublist _ _), ?_,
        (decide_eq_false hless).symm, fun p hp => le_of_mem_assignSlabs hp⟩
      rw [assignSlabs_sum, UInt64.toNat_sub_of_le _ _ (UInt64.le_iff_toNat_le.mpr (by omega)), hadv]
      omega

/-- Pools with these numbers of slabs in use and advised. -/
def withPools (pools : List (UInt64 × UInt64)) : MemoryAllocator where
  allocSizes := []
  slabs := (init oneSlab []).slabs
  pools := pools.map fun p =>
    { name := "", maxSize := 0, ac := []
      currSlabAllocSize := kSlabSize * p.1
      curSlabsAdvised := p.2 }

def allPools (pools : List (UInt64 × UInt64)) (h : pools.length ≤ kMaxPools) :
    (withPools pools).PoolIds where
  ids := range pools.length
  sorted := pairwise_lt_range
  valid := by
    intro id hid
    rw [withPools, length_map]
    exact mem_range.mp hid
  lt_kMaxPools := fun id hid => (mem_range.mp hid).trans_le h

/-- Two pools with 3 and 5 slabs in use and one slab advised, of 3 to advise. -/
theorem calcNumSlabsToAdviseReclaim_spec_two :
    (withPools [(3, 0), (5, 1)]).calcNumSlabsToAdviseReclaim 3 (allPools _ (by decide))
        = ⟨[(0, 2)], true⟩ ∧
      (withPools [(3, 0), (5, 1)]).AdvisesTo 3 (allPools _ (by decide))
        ((withPools [(3, 0), (5, 1)]).poolAdviseTargets 3 (allPools _ (by decide)))
        ((withPools [(3, 0), (5, 1)]).calcNumSlabsToAdviseReclaim 3 (allPools _ (by decide))) := by
  have hspec := calcNumSlabsToAdviseReclaim_spec 3 (allPools [(3, 0), (5, 1)] (by decide))
    (by decide +kernel) (by decide +kernel)
  rw [if_neg (by decide +kernel)] at hspec
  exact ⟨by decide +kernel, hspec⟩

/-- Nothing is reclaimed for a pool without a slab in use. A target of 2⁶³ slabs is divided wrongly,
as the product wraps, and advised slabs that add up to 2⁶⁴ are taken for none. -/
theorem advise_targets_missed :
    ((withPools [(0, 1)]).calcNumSlabsToAdviseReclaim 0 (allPools _ (by decide)) = {} ∧
      ¬ (withPools [(0, 1)]).AdvisesTo 0 (allPools _ (by decide))
        ((withPools [(0, 1)]).poolAdviseTargets 0 (allPools _ (by decide)))
        ((withPools [(0, 1)]).calcNumSlabsToAdviseReclaim 0 (allPools _ (by decide)))) ∧
    ((withPools [(2, 0)]).poolAdviseTargets (2 ^ 63) (allPools _ (by decide)) 0 = 1 ∧
      ¬ (withPools [(2, 0)]).AdvisesTo (2 ^ 63) (allPools _ (by decide))
        ((withPools [(2, 0)]).poolAdviseTargets (2 ^ 63) (allPools _ (by decide)))
        ((withPools [(2, 0)]).calcNumSlabsToAdviseReclaim (2 ^ 63) (allPools _ (by decide)))) ∧
    ((withPools [(1, 2 ^ 63), (1, 2 ^ 63)]).calcNumSlabsToAdviseReclaim 1
        (allPools _ (by decide)) = ⟨[], true⟩ ∧
      ¬ (withPools [(1, 2 ^ 63), (1, 2 ^ 63)]).AdvisesTo 1 (allPools _ (by decide))
        ((withPools [(1, 2 ^ 63), (1, 2 ^ 63)]).poolAdviseTargets 1 (allPools _ (by decide)))
        ((withPools [(1, 2 ^ 63), (1, 2 ^ 63)]).calcNumSlabsToAdviseReclaim 1
          (allPools _ (by decide)))) := by
  refine ⟨⟨by decide +kernel, ?_⟩, ⟨by decide +kernel, ?_⟩, by decide +kernel, ?_⟩
  · exact fun h => absurd h.amounts_sum (by decide +kernel)
  · exact fun h => absurd h.targets_sum (by decide +kernel)
  · exact fun h => absurd h.direction (by decide +kernel)

end MemoryAllocator

end CacheLib
