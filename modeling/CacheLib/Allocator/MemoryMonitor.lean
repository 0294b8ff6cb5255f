/-
The target of the memory monitor (`cachelib/allocator/MemoryMonitor.cpp`).

An iteration raises the target by no more than the slabs advised so far leave to the maximum, and
lowers it by no more than these. What is advised follows the target only as far as slabs can be
released and reclaimed. An iteration is therefore right if it finds the target reached.
-/
import CacheLib.Lib.Run
import CacheLib.Allocator.SlabAllocator

set_option autoImplicit false

namespace CacheLib.MemoryMonitor

open Transition

inductive Mode
  | FreeMemory
  | ResidentMemory

/-- The pools are fixed: they have `allSlabs` with those that are advised. -/
structure Config where
  mode : Mode
  (lowerLimit upperLimit percentAdvisePerIteration percentReclaimPerIteration : ℕ)
  (maxLimitPercent allSlabs : ℕ)
  allSlabs_lt : allSlabs < 2 ^ 31
  max_lt : maxLimitPercent * allSlabs / 100 < 2 ^ 31

def Config.maxNumAdvisedSlabs (cfg : Config) : ℕ := cfg.maxLimitPercent * cfg.allSlabs / 100

variable (cfg : Config)

structure State where
  numSlabsToAdvise : ℕ
  numAdvised : Fin (cfg.allSlabs + 1)

/-- The available or the resident memory, what the rate limiter makes of the bytes to reclaim, and
the slabs that are advised when the iteration ends, whatever was released or reclaimed -/
structure Reading where
  memory : ℕ
  slabsInUse : ℕ := 1
  throttle : ℕ → ℕ := id
  numAdvised : Fin (cfg.allSlabs + 1)

def bytesToSlabs (bytes : ℕ) : ℕ := bytes / Slab.kSize

def toInt32 (n : ℕ) : ℤ := Int.bmod n (2 ^ 32)

/-- The argument is an `int32_t`, and the counter has 64 bits. -/
def updateNumSlabsToAdvise (target : ℕ) (numSlabs : ℤ) : Option ℕ :=
  if numSlabs < 0 ∧ target < -numSlabs then none else some ((target + numSlabs) % 2 ^ 64).toNat

variable {cfg} (s : State cfg) (r : Reading cfg)

def adviseAwaySlabs : ℤ :=
  let slabsToAdvise := bytesToSlabs (cfg.upperLimit - cfg.lowerLimit)
    * cfg.percentAdvisePerIteration % 2 ^ 64 / 100
  if r.slabsInUse = 0 ∨ s.numAdvised.val = cfg.allSlabs then 0
  else toInt32 (min slabsToAdvise (cfg.maxNumAdvisedSlabs - s.numAdvised))

def reclaimSlabs : ℤ :=
  let reclaimBytes :=
    (cfg.upperLimit - cfg.lowerLimit) * cfg.percentReclaimPerIteration % 2 ^ 64 / 100
  if r.slabsInUse = 0 then 0
  else -toInt32 (min (bytesToSlabs (r.throttle reclaimBytes)) s.numAdvised)

def tooLittleMemory : Bool :=
  match cfg.mode with
  | .FreeMemory => r.memory < cfg.lowerLimit
  | .ResidentMemory => cfg.upperLimit < r.memory

def enoughMemory : Bool :=
  match cfg.mode with
  | .FreeMemory => cfg.upperLimit < r.memory
  | .ResidentMemory => r.memory < cfg.lowerLimit

/-- `checkFreeMemory` and `checkResidentMemory`. There is no result if the update throws. -/
def work : Option (State cfg) :=
  let numSlabs :=
    if tooLittleMemory r then adviseAwaySlabs s r
    else if enoughMemory r ∧ 0 < s.numAdvised.val then reclaimSlabs s r
    else 0
  (updateNumSlabsToAdvise s.numSlabsToAdvise numSlabs).map fun target => ⟨target, r.numAdvised⟩

/-- **The condition.** What is to be raised has been advised, what is to be lowered reclaimed. -/
def Reached : Prop :=
  if tooLittleMemory r then s.numSlabsToAdvise ≤ s.numAdvised
  else enoughMemory r → s.numAdvised ≤ s.numSlabsToAdvise

instance : Decidable (Reached s r) := by
  unfold Reached
  infer_instance

variable {s r}

theorem toInt32_of_lt {n : ℕ} (h : n < 2 ^ 31) : toInt32 n = n :=
  Int.bmod_eq_of_le (by omega) (by omega)

theorem adviseAwaySlabs_bounds : 0 ≤ adviseAwaySlabs s r ∧
    adviseAwaySlabs s r ≤ (cfg.maxNumAdvisedSlabs - s.numAdvised : ℕ) := by
  have hlt : cfg.maxNumAdvisedSlabs < 2 ^ 31 := cfg.max_lt
  unfold adviseAwaySlabs
  dsimp only
  split_ifs
  · omega
  · rw [toInt32_of_lt (by omega)]
    omega

theorem reclaimSlabs_bounds : -s.numAdvised ≤ reclaimSlabs s r ∧ reclaimSlabs s r ≤ 0 := by
  have hlt := cfg.allSlabs_lt
  have hadvised := s.numAdvised.isLt
  unfold reclaimSlabs
  dsimp only
  split_ifs
  · omega
  · rw [toInt32_of_lt (by omega)]
    omega

theorem work_of_reached {M : ℕ} (hmax : cfg.maxNumAdvisedSlabs ≤ M)
    (htarget : s.numSlabsToAdvise ≤ M) (hreached : Reached s r) :
    ∃ t, work s r = some t ∧ t.numSlabsToAdvise ≤ M := by
  have hadvise := adviseAwaySlabs_bounds (s := s) (r := r)
  have hreclaim := reclaimSlabs_bounds (s := s) (r := r)
  unfold work
  unfold Reached at hreached
  extract_lets numSlabs
  have hchange : -s.numSlabsToAdvise ≤ numSlabs ∧ s.numSlabsToAdvise + numSlabs ≤ M := by
    subst numSlabs
    split_ifs at hreached ⊢ with hlow henough
    · omega
    · have := hreached henough.1
      omega
    · omega
  rw [updateNumSlabsToAdvise, if_neg (by omega)]
  refine ⟨_, rfl, ?_⟩
  dsimp only
  omega

/-- **The bound.** As long as an iteration finds the target reached, none throws, and the target
stays at most its initial value or the maximum. -/
theorem numSlabsToAdvise_le (s : State cfg) (rs : List (Reading cfg))
    (hreached : Along work Reached s rs) : ∃ t, exec work s rs = some t ∧
      t.numSlabsToAdvise ≤ max s.numSlabsToAdvise cfg.maxNumAdvisedSlabs := by
  have hmax := le_max_right s.numSlabsToAdvise cfg.maxNumAdvisedSlabs
  have htarget := le_max_left s.numSlabsToAdvise cfg.maxNumAdvisedSlabs
  -- the bound is the one of the beginning
  generalize max s.numSlabsToAdvise cfg.maxNumAdvisedSlabs = M at hmax htarget ⊢
  induction rs generalizing s with
  | nil => exact ⟨s, rfl, htarget⟩
  | cons r rs ih =>
      obtain ⟨t, hwork, ht⟩ := work_of_reached hmax htarget hreached.1
      rw [exec_cons, hwork]
      exact ih t (hreached.2 t hwork) ht

/-- A hundred slabs, a maximum of twenty, and ten for an iteration -/
def small : Config where
  mode := .FreeMemory
  lowerLimit := Slab.kSize
  upperLimit := 101 * Slab.kSize
  percentAdvisePerIteration := 10
  percentReclaimPerIteration := 10
  maxLimitPercent := 20
  allSlabs := 100
  allSlabs_lt := by decide
  max_lt := by decide

def reading (slabs : ℕ) (numAdvised : Fin 101) : Reading small :=
  { memory := slabs * Slab.kSize, numAdvised := numAdvised }

/-- All slabs are released and reclaimed. -/
theorem numSlabsToAdvise_le_small :
    ∃ t, exec work ⟨0, 0⟩ [reading 0 10, reading 0 20, reading 0 20, reading 102 10] = some t ∧
      t.numSlabsToAdvise ≤ max 0 20 :=
  numSlabsToAdvise_le ⟨0, 0⟩ _ (by decide +kernel)

/-- No slab is released, and the target passes the maximum. No slab is reclaimed, and an iteration
throws. -/
theorem target_not_reached :
    (∃ t, exec work ⟨0, 0⟩ [reading 0 0, reading 0 0, reading 0 0] = some t ∧
      ¬ t.numSlabsToAdvise ≤ max 0 20) ∧
    exec work ⟨0, 0⟩ [reading 0 10, reading 102 10, reading 102 10] = none :=
  ⟨by decide +kernel, rfl⟩

end CacheLib.MemoryMonitor
