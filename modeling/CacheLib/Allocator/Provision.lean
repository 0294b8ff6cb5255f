/-
`MemoryPool::provision` (`cachelib/allocator/memory/MemoryPool.cpp`), for all counts.

The slabs are collected first, from the pool's own free slabs and then from the slab
allocator, and given to the classes afterwards. If there are not enough, all of them go back
to the slab allocator, wherever they came from. The number of slabs to collect is added up in
32 bits, while the second loop runs as often as the counts say.
-/
import CacheLib.Allocator.SlabConservation

set_option autoImplicit false

namespace CacheLib

open AllocationClass (Slab)

/-- The slabs that are free or can be carved. -/
def SlabAllocator.supply (a : SlabAllocator) : ℕ :=
  if a.canAllocate then a.freeSlabs.length + (a.memory.numSlabMemory - a.nextSlabAllocation) else 0

namespace PoolView

/-- How many slabs a class has. -/
def slabCount (v : PoolView) (cid : ℕ) : ℕ := (v.pool.ac[cid]?.map fun c => c.slabs.length).getD 0

/-- Each class gets what was asked for and the call returns true, or it returns false and the pool
is what it was: its classes, its free slabs and its counters. -/
def AllOrNothing (id : ℕ) (v : PoolView) (slabsDistribution : List UInt32) : Prop :=
  ∃ r v', v.provision id slabsDistribution = some (r, v') ∧
    ((r = .succeeded true ∧ ∀ cid, v'.slabCount cid
        = v.slabCount cid + (slabsDistribution.map UInt32.toNat).getD cid 0) ∨
      (r = .succeeded false ∧ v'.pool = v.pool))

/-- The slabs that the pool can still get. -/
def supply (v : PoolView) : ℕ := v.pool.freeSlabs.length + v.slabs.supply

/-- There are `n` slabs for the pool, and its limit is not reached before it has them. -/
def Provides (v : PoolView) (n : ℕ) : Prop :=
  n ≤ v.supply ∧ ∀ k < n, MemoryPool.allSlabsAllocated
    { v.pool with currSlabAllocSize := v.pool.currSlabAllocSize + slabBytes k } = false

/-! ## Taking slabs -/

/-- The pool when it has taken `k` slabs. -/
def taken (p : MemoryPool) (k : ℕ) : MemoryPool :=
  { p with
    currSlabAllocSize := p.currSlabAllocSize + slabBytes k
    freeSlabs := p.freeSlabs.take (p.freeSlabs.length - k) }

theorem slabBytes_zero : slabBytes 0 = 0 := by
  rw [slabBytes, Nat.mul_zero]
  rfl

theorem slabBytes_one : slabBytes 1 = kSlabSize := by
  rw [slabBytes, Nat.mul_one, kSlabSize]

theorem taken_zero (p : MemoryPool) : taken p 0 = p := by
  rw [taken, slabBytes_zero, UInt64.add_zero, Nat.sub_zero, List.take_length]

theorem taken_taken (p : MemoryPool) (k : ℕ) : taken (taken p 1) k = taken p (k + 1) := by
  have hbytes : p.currSlabAllocSize + slabBytes 1 + slabBytes k
      = p.currSlabAllocSize + slabBytes (k + 1) := by
    rw [slabBytes_one, slabBytes_succ, UInt64.add_assoc, UInt64.add_comm kSlabSize]
  have hfree : (p.freeSlabs.take (p.freeSlabs.length - 1)).take
      ((p.freeSlabs.take (p.freeSlabs.length - 1)).length - k)
      = p.freeSlabs.take (p.freeSlabs.length - (k + 1)) := by
    rw [List.take_take, List.length_take]
    congr 1
    omega
  unfold taken
  dsimp only
  rw [hbytes, hfree]

theorem makeNewSlab_supply (a : SlabAllocator) (id : ℕ) :
    (a.supply = 0 ∧ ∃ a', a.makeNewSlab id = (none, a')) ∨
      ∃ slab a', a.makeNewSlab id = (some slab, a') ∧ a.supply = a'.supply + 1 := by
  unfold SlabAllocator.makeNewSlab SlabAllocator.makeNewSlabImpl
  by_cases hcan : a.canAllocate = true
  · simp only [hcan, Bool.not_true, Bool.false_eq_true, if_false]
    rcases hlast : a.freeSlabs.getLast? with _ | slab
    · have hnil : a.freeSlabs = [] := List.getLast?_eq_none_iff.mp hlast
      by_cases hall : a.nextSlabAllocation = a.memory.numSlabMemory
      · left
        rw [dif_pos hall]
        refine ⟨?_, _, rfl⟩
        rw [SlabAllocator.supply, if_pos hcan, hnil, hall, Nat.sub_self]
        rfl
      · right
        have hlt := Nat.lt_of_le_of_ne a.nextSlabAllocation_le hall
        rw [dif_neg hall]
        refine ⟨_, _, rfl, ?_⟩
        simp only [SlabAllocator.supply, SlabAllocator.grant, hcan, if_true]
        omega
    · right
      have hlength := congrArg List.length (List.dropLast_append_getLast? slab hlast)
      rw [List.length_append, List.length_singleton] at hlength
      refine ⟨_, _, rfl, ?_⟩
      simp only [SlabAllocator.supply, SlabAllocator.grant, hcan, if_true]
      omega
  · left
    rw [Bool.not_eq_true] at hcan
    simp only [hcan, Bool.not_false, if_true]
    exact ⟨by rw [SlabAllocator.supply, hcan]; rfl, _, rfl⟩

/-- What `getSlabLocked` does. -/
theorem getSlabLocked_cases (v : PoolView) (id : ℕ) :
    (v.pool.allSlabsAllocated = true ∧ v.getSlabLocked id = (none, v)) ∨
    (v.pool.allSlabsAllocated = false ∧ v.supply = 0 ∧
      ∃ slabs, v.getSlabLocked id = (none, ⟨slabs, v.pool⟩)) ∨
    (v.pool.allSlabsAllocated = false ∧ ∃ slab v', v.getSlabLocked id = (some slab, v') ∧
      v.supply = v'.supply + 1 ∧ v'.pool = taken v.pool 1) := by
  by_cases hall : v.pool.allSlabsAllocated = true
  · left
    rw [getSlabLocked, if_pos hall]
    exact ⟨hall, rfl⟩
  right
  have hnot := Bool.eq_false_iff.mpr hall
  rw [getSlabLocked, if_neg hall]
  dsimp only
  rcases hlast : v.pool.freeSlabs.getLast? with _ | slab
  · have hnil : v.pool.freeSlabs = [] := List.getLast?_eq_none_iff.mp hlast
    have hfree : v.pool.freeSlabs.take (v.pool.freeSlabs.length - 1) = v.pool.freeSlabs := by
      rw [hnil]
      rfl
    dsimp only
    rcases makeNewSlab_supply v.slabs id with ⟨hzero, a, hnone⟩ | ⟨slab, a, hsome, hsupply⟩
    · left
      refine ⟨hnot, ?_, a, ?_⟩
      · rw [supply, hnil, hzero]
        rfl
      · rw [hnone]
        dsimp only
        rw [UInt64.add_sub_cancel]
    · right
      refine ⟨hnot, slab, ⟨a, taken v.pool 1⟩, ?_, ?_, rfl⟩
      · rw [hsome]
        dsimp only
        rw [taken, slabBytes_one, hfree]
      · have hlength : (taken v.pool 1).freeSlabs.length = v.pool.freeSlabs.length :=
          congrArg List.length hfree
        simp only [supply, hlength, hsupply]
        omega
  · right
    have hdrop : v.pool.freeSlabs.dropLast = v.pool.freeSlabs.take (v.pool.freeSlabs.length - 1) :=
      List.dropLast_eq_take
    have hlength := congrArg List.length (List.dropLast_append_getLast? slab hlast)
    rw [List.length_append, List.length_singleton] at hlength
    refine ⟨hnot, slab, ⟨v.slabs, taken v.pool 1⟩, ?_, ?_, rfl⟩
    · dsimp only
      rw [taken, slabBytes_one, hdrop]
    · have htaken : (taken v.pool 1).freeSlabs.length = v.pool.freeSlabs.dropLast.length :=
        congrArg List.length hdrop.symm
      simp only [supply, htaken]
      omega

/-- One slab less is needed after one has been taken. -/
theorem provides_succ {v v' : PoolView} (hnot : v.pool.allSlabsAllocated = false)
    (hsupply : v.supply = v'.supply + 1) (hpool : v'.pool = taken v.pool 1) (n : ℕ) :
    v.Provides (n + 1) ↔ v'.Provides n := by
  have hroom : ∀ k, MemoryPool.allSlabsAllocated
      { v'.pool with currSlabAllocSize := v'.pool.currSlabAllocSize + slabBytes k }
      = MemoryPool.allSlabsAllocated
        { v.pool with currSlabAllocSize := v.pool.currSlabAllocSize + slabBytes (k + 1) } := by
    intro k
    have hbytes : v.pool.currSlabAllocSize + slabBytes 1 + slabBytes k
        = v.pool.currSlabAllocSize + slabBytes (k + 1) := by
      rw [slabBytes_one, slabBytes_succ, UInt64.add_assoc, UInt64.add_comm kSlabSize]
    rw [Bool.eq_iff_iff]
    simp only [MemoryPool.allSlabsAllocated, decide_eq_true_iff, MemoryPool.getPoolAdvisedSize,
      hpool, taken, hbytes]
    exact decide_eq_true_iff.symm
  have hzero : MemoryPool.allSlabsAllocated
      { v.pool with currSlabAllocSize := v.pool.currSlabAllocSize + slabBytes 0 } = false := by
    rw [slabBytes_zero, UInt64.add_zero]
    exact hnot
  simp only [Provides, hsupply, hroom, Nat.add_le_add_iff_right]
  refine and_congr_right fun _ => ?_
  constructor
  · exact fun h k hk => h (k + 1) (Nat.succ_lt_succ hk)
  · intro h k hk
    cases k with
    | zero => exact hzero
    | succ k => exact h k (Nat.lt_of_succ_lt_succ hk)

theorem takeSlabs_spec (v : PoolView) (id n : ℕ) (slabs : List Slab) :
    ((v.takeSlabs id n slabs).1 = true ↔ v.Provides n) ∧
      ∃ k, (v.takeSlabs id n slabs).2.1.length = slabs.length + k ∧
        (v.takeSlabs id n slabs).2.2.pool = taken v.pool k ∧
        (v.pool.allSlabsAllocated = true → k = 0) ∧
        (k = 0 → n = 0 ∨ v.pool.allSlabsAllocated = true ∨ v.supply = 0) := by
  induction n generalizing v slabs with
  | zero =>
      have hprovides : v.Provides 0 := ⟨Nat.zero_le _, fun k hk => absurd hk k.not_lt_zero⟩
      refine ⟨⟨fun _ => hprovides, fun _ => rfl⟩, 0, rfl, (taken_zero _).symm, ?_⟩
      exact ⟨fun _ => rfl, fun _ => Or.inl rfl⟩
  | succ n ih =>
      rw [takeSlabs]
      rcases v.getSlabLocked_cases id with ⟨hall, hget⟩ | ⟨hnot, hzero, a, hget⟩ |
        ⟨hnot, slab, v', hget, hsupply, hpool⟩
      · rw [hget]
        refine ⟨⟨fun h => absurd h Bool.false_ne_true, fun h => ?_⟩, 0, rfl, (taken_zero _).symm,
          fun _ => rfl, fun _ => Or.inr (Or.inl hall)⟩
        have hfirst := h.2 0 (Nat.succ_pos n)
        rw [slabBytes_zero, UInt64.add_zero] at hfirst
        cases hall.symm.trans hfirst
      · rw [hget]
        refine ⟨⟨fun h => absurd h Bool.false_ne_true, fun h => ?_⟩, 0, rfl, (taken_zero _).symm,
          fun _ => rfl, fun _ => Or.inr (Or.inr hzero)⟩
        exact absurd (hzero ▸ h.1) (Nat.not_succ_le_zero n)
      · rw [hget]
        obtain ⟨hiff, k, hlength, htaken, -⟩ := ih v' (slabs ++ [slab])
        rw [provides_succ hnot hsupply hpool]
        refine ⟨hiff, k + 1, ?_, ?_, fun h => ?_, fun h => absurd h k.succ_ne_zero⟩
        · rw [hlength, List.length_append, List.length_singleton]
          omega
        · rw [htaken, hpool, taken_taken]
        · cases h.symm.trans hnot

theorem freeAllSlabs_pool (v : PoolView) (slabs : List Slab) :
    (v.freeAllSlabs slabs).pool
      = { v.pool with currSlabAllocSize := v.pool.currSlabAllocSize - slabBytes slabs.length } := by
  induction slabs generalizing v with
  | nil =>
      rw [List.length_nil, slabBytes_zero, UInt64.sub_zero]
      rfl
  | cons slab slabs ih =>
      have hbytes : v.pool.currSlabAllocSize - kSlabSize - slabBytes slabs.length
          = v.pool.currSlabAllocSize - slabBytes (slabs.length + 1) := by
        rw [slabBytes_succ]
        grind
      rw [freeAllSlabs, List.foldl_cons, ← freeAllSlabs, ih, List.length_cons, ← hbytes]

/-- What was taken is given back, but not to the free slabs of the pool. -/
theorem freeAllSlabs_taken {v v' : PoolView} {slabs : List Slab}
    (h : v'.pool = taken v.pool slabs.length) :
    (v'.freeAllSlabs slabs).pool = { v.pool with
      freeSlabs := v.pool.freeSlabs.take (v.pool.freeSlabs.length - slabs.length) } := by
  rw [freeAllSlabs_pool, h, taken]
  dsimp only
  rw [UInt64.add_sub_cancel]

/-! ## Giving them to the classes -/

theorem slabCount_addSlab (v : PoolView) {cid : ℕ} {c : PoolClass} (hc : v.pool.ac[cid]? = some c)
    (slab : Slab) (i : ℕ) :
    (v.addSlab cid c slab).slabCount i = v.slabCount i + [cid].count i := by
  have hlt : cid < v.pool.ac.length := (List.getElem?_eq_some_iff.mp hc).1
  change ((v.pool.ac.set cid { c with cls := (c.load v.slabs).addSlabLocked c.cfg slab })[i]?.map
    fun c => c.slabs.length).getD 0 = _
  rw [List.getElem?_set, if_pos hlt, slabCount]
  by_cases hi : cid = i
  · subst hi
    rw [if_pos rfl, hc, List.count_singleton_self]
    simp only [Option.map_some, Option.getD_some, PoolClass.slabs, PoolClass.load,
      AllocationClass.Class.addSlabLocked, List.length_append, List.length_singleton]
    omega
  · rw [if_neg hi, List.count_singleton, beq_eq_decide, decide_eq_false hi]
    rfl

theorem slabCount_addSlabs (cids : List ℕ) (slabs : List Slab) (v : PoolView)
    (hlength : cids.length ≤ slabs.length) (hcids : ∀ cid ∈ cids, cid < v.pool.ac.length) (i : ℕ) :
    (v.addSlabs cids slabs).slabCount i = v.slabCount i + cids.count i := by
  induction cids generalizing v slabs with
  | nil => rfl
  | cons cid cids ih =>
      cases slabs with
      | nil => exact absurd hlength (Nat.not_succ_le_zero _)
      | cons slab slabs =>
          have hc := List.getElem?_eq_getElem (hcids cid List.mem_cons_self)
          rw [addSlabs, hc]
          dsimp only
          rw [ih _ _ (Nat.le_of_succ_le_succ hlength), slabCount_addSlab v hc, Nat.add_assoc,
            ← List.count_append, List.singleton_append]
          intro cid' hcid'
          change cid' < (v.pool.ac.set cid _).length
          rw [List.length_set]
          exact hcids cid' (List.mem_cons_of_mem _ hcid')

/-- Each class comes as often as its count says. -/
theorem count_classesToProvision (counts : List ℕ) (k i : ℕ) :
    ((counts.zipIdx k).flatMap fun d => List.replicate d.1 d.2).count (k + i) = counts.getD i 0 := by
  induction counts generalizing k i with
  | nil => rfl
  | cons d counts ih =>
      rw [List.zipIdx_cons, List.flatMap_cons, List.count_append, List.count_replicate]
      cases i with
      | zero =>
          have hnone : ((counts.zipIdx (k + 1)).flatMap fun d => List.replicate d.1 d.2).count (k + 0)
              = 0 := by
            rw [List.count_eq_zero]
            intro hmem
            obtain ⟨⟨n, j⟩, hin, hrep⟩ := List.mem_flatMap.mp hmem
            have hle := List.le_snd_of_mem_zipIdx hin
            have heq := List.eq_of_mem_replicate hrep
            omega
          rw [hnone]
          simp
      | succ i =>
          have hrest := ih (k + 1) i
          rw [show k + 1 + i = k + (i + 1) from by omega] at hrest
          rw [hrest]
          simp

/-- **When provisioning is all or nothing.** For every state of a pool and all counts: if there are
as many slabs for the pool as the counts add up to in 32 bits, exactly if they add up to less than
`2 ^ 32`; and otherwise exactly if the pool has no free slabs of its own or is at its limit. -/
theorem allOrNothing_iff (id : ℕ) (v : PoolView) {slabsDistribution : List UInt32}
    (hlength : slabsDistribution.length = v.pool.ac.length) :
    v.AllOrNothing id slabsDistribution ↔
      (v.Provides ((slabsDistribution.map UInt32.toNat).sum % 2 ^ 32) →
        (slabsDistribution.map UInt32.toNat).sum < 2 ^ 32) ∧
      (¬ v.Provides ((slabsDistribution.map UInt32.toNat).sum % 2 ^ 32) →
        v.pool.freeSlabs = [] ∨ v.pool.allSlabsAllocated = true) := by
  rw [← List.length_map UInt32.toNat] at hlength
  rw [AllOrNothing, provision]
  generalize slabsDistribution.map UInt32.toNat = counts at hlength ⊢
  dsimp only
  rw [if_neg (not_not.mpr hlength)]
  have hcids := length_classesToProvision counts 0
  have hac := v.takeSlabs_ac id (counts.sum % 2 ^ 32) []
  have hall := v.takeSlabs_length id (counts.sum % 2 ^ 32) []
  obtain ⟨hprovides, k, hslabs, htaken, hlimit, hnone⟩ := v.takeSlabs_spec id (counts.sum % 2 ^ 32) []
  rw [← hprovides]
  rcases htake : v.takeSlabs id (counts.sum % 2 ^ 32) [] with ⟨all, slabs, v₁⟩
  rw [htake] at hac hall hprovides hslabs htaken
  dsimp only at hac hall hprovides hslabs htaken ⊢
  rw [List.length_nil, Nat.zero_add] at hslabs
  cases all with
  | true =>
      have hcount : slabs.length = counts.sum % 2 ^ 32 := by
        rw [hall rfl, List.length_nil, Nat.zero_add]
      have hsum : ¬ slabs.length < (counts.zipIdx.flatMap fun d => List.replicate d.1 d.2).length ↔
          counts.sum < 2 ^ 32 := by
        rw [hcids]
        omega
      simp only [forall_const, not_true_eq_false, false_implies, and_true]
      rw [← hsum]
      constructor
      · rintro ⟨r, v', hresult, -⟩ hlt
        rw [if_pos hlt] at hresult
        exact nomatch hresult
      · intro hge
        refine ⟨_, _, if_neg hge, Or.inl ⟨rfl, fun cid => ?_⟩⟩
        have hclasses := count_classesToProvision counts 0 cid
        rw [Nat.zero_add] at hclasses
        rw [slabCount_addSlabs _ _ _ (Nat.not_lt.mp hge), hclasses, slabCount, slabCount, hac]
        intro cid hcid
        rw [hac, ← hlength]
        exact lt_of_mem_classesToProvision hcid
  | false =>
      have hpool := freeAllSlabs_taken (v := v) (hslabs ▸ htaken)
      simp only [Bool.false_eq_true, false_implies, true_and, not_false_eq_true, forall_const]
      constructor
      · rintro ⟨r, v', hresult, ⟨rfl, -⟩ | ⟨-, hsame⟩⟩
        · exact nomatch hresult
        obtain rfl := congrArg Prod.snd (Option.some.inj hresult)
        have hfree := congrArg (·.freeSlabs.length) (hpool.symm.trans hsame)
        dsimp only at hfree
        rw [List.length_take] at hfree
        rcases Nat.eq_zero_or_pos v.pool.freeSlabs.length with hnil | hpos
        · exact Or.inl (List.eq_nil_of_length_eq_zero hnil)
        -- nothing was lost, so nothing was taken
        right
        rcases hnone (by omega) with hzero | hall | hsupply
        · exact absurd (hprovides.mpr (hzero ▸ ⟨Nat.zero_le _, nofun⟩)) Bool.false_ne_true
        · exact hall
        · rw [supply] at hsupply
          omega
      · intro h
        refine ⟨_, _, rfl, Or.inr ⟨rfl, hpool.trans ?_⟩⟩
        rcases h with hnil | hall
        · rw [hnil, List.take_nil, ← hnil]
        · rw [hslabs, hlimit hall, Nat.sub_zero, List.take_length]

open MemoryAllocator Transition

theorem allOrNothing_iff_newPool :
    ∃ m pool, exec step (init oneSlab [Slab.kSize]) [.addPool "pool" kSlabSize [Slab.kSize] false]
        = some m ∧ m.pools[0]? = some pool ∧ AllOrNothing 0 ⟨m.slabs, pool⟩ [1] := by
  obtain ⟨m, hrun, pool, hpool, hlength, hfree⟩ : ∃ m, exec step (init oneSlab [Slab.kSize])
        [.addPool "pool" kSlabSize [Slab.kSize] false] = some m ∧
      ∃ pool, m.pools[0]? = some pool ∧ pool.ac.length = 1 ∧ pool.freeSlabs = [] := by
    decide +kernel
  refine ⟨m, pool, hrun, hpool, ?_⟩
  exact (@allOrNothing_iff 0 ⟨m.slabs, pool⟩ [1] hlength.symm).mpr
    ⟨fun _ => by decide, fun _ => Or.inl hfree⟩

/-- The pool has a free slab of its own and is asked for two. The call fails, and the slab is
gone. -/
theorem own_free_slab_lost :
    ∃ m pool, exec step (init oneSlab [Slab.kSize]) (slabReleased .kRebalance) = some m ∧
      m.pools[0]? = some pool ∧ pool.ac.length = 1 ∧ ¬ AllOrNothing 0 ⟨m.slabs, pool⟩ [2] := by
  obtain ⟨m, hrun, pool, hpool, hlength, hfree, ⟨r', v⟩, hcall, hcount, hfree'⟩ :
      ∃ m, exec step (init oneSlab [Slab.kSize]) (slabReleased .kRebalance) = some m ∧
        ∃ pool, m.pools[0]? = some pool ∧ pool.ac.length = 1 ∧ pool.freeSlabs = [0] ∧
          ∃ r, provision 0 ⟨m.slabs, pool⟩ [2] = some r ∧ r.2.slabCount 0 = 0 ∧
            r.2.pool.freeSlabs = [] := by decide +kernel
  refine ⟨m, pool, hrun, hpool, hlength, ?_⟩
  rintro ⟨r, v', hcall', h⟩
  obtain ⟨rfl, rfl⟩ := Prod.mk.inj (Option.some.inj (hcall.symm.trans hcall'))
  dsimp only at hcount hfree'
  rcases h with ⟨-, htwo⟩ | ⟨-, hsame⟩
  · rw [htwo 0] at hcount
    exact nomatch hcount
  · rw [hsame, hfree] at hfree'
    exact nomatch hfree'

end PoolView

end CacheLib
