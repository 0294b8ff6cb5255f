/-
Slabs are conserved: over every run of the memory allocator, each slab that has been carved
out is in one place, and the counters of slabs can be read off from where the slabs are.

The ledger of one pool is joined to an invariant of all pools by a frame, which has what the
other pools hold. A call of a pool is then a change of one ledger (`Inv.set`), and the steps
of the memory allocator follow from the functions of a pool.

Two releases lose their slab and are excluded by `undisturbed`: one whose `shouldAbortFn`
stops it, and one for a class that its pool does not have.
-/
import CacheLib.Allocator.SlabLedger

set_option autoImplicit false

namespace CacheLib

open List Option Slab MemoryPool

open AllocationClass (Slab Alloc Config Class)
open Transition (exec Along tally tally_eq_zero exec_invariant_tally)

/-! ## Sums and bounds -/

section Sums

variable {α : Type} {f : α → UInt64}

theorem foldl_add_eq (l : List α) (a k : UInt64) :
    l.foldl (fun s x => s + f x) (a + k) = l.foldl (fun s x => s + f x) a + k := by
  induction l generalizing a with
  | nil => rfl
  | cons x l ih =>
      rw [foldl_cons, foldl_cons, ← ih, UInt64.add_assoc, UInt64.add_assoc,
        UInt64.add_comm k]

theorem foldl_add_set {l : List α} {i : ℕ} {x : α} (h : l[i]? = some x) (y : α) (a : UInt64) :
    (l.set i y).foldl (fun s x => s + f x) a + f x = l.foldl (fun s x => s + f x) a + f y := by
  induction l generalizing i a with
  | nil => simp at h
  | cons z l ih =>
      rcases i with _ | i
      · simp only [getElem?_cons_zero, some.injEq] at h
        subst h
        rw [set_cons_zero, foldl_cons, foldl_cons, foldl_add_eq, foldl_add_eq,
          UInt64.add_assoc, UInt64.add_assoc, UInt64.add_comm (f y)]
      · rw [set_cons_succ, foldl_cons, foldl_cons]
        exact ih (by simpa using h) _

end Sums

/-- A slab that one member of a family has once, no other has. -/
theorem exists_of_count_flatMap {α : Type} {f : α → List Slab} {l : List α} {b : Slab}
    (h : (l.flatMap f).count b = 1) : ∃ (i : ℕ) (x : α), l[i]? = some x ∧ (f x).count b = 1 ∧
      ∀ (i' : ℕ) (x' : α), i' ≠ i → l[i']? = some x' → b ∉ f x' := by
  have hmem : b ∈ l.flatMap f := count_pos_iff.mp (by omega)
  obtain ⟨x, hx, hb⟩ := mem_flatMap.mp hmem
  obtain ⟨i, hi⟩ := getElem?_of_mem hx
  have hpos := count_pos_iff.mpr hb
  have hle := count_le_count_flatMap (f := f) hi b
  refine ⟨i, x, hi, by omega, ?_⟩
  intro i' x' hne hi' hb'
  have hboth := count_add_count_le (f := f) hi hi' (Ne.symm hne) b
  have hpos' := count_pos_iff.mpr hb'
  omega

theorem length_le_of_count_le {l : List Slab} {k : ℕ}
    (h : ∀ b, l.count b ≤ if b < k then 1 else 0) : l.length ≤ k := by
  have hnodup : l.Nodup := by
    rw [nodup_iff_count_le_one]
    intro b
    have hb := h b
    split_ifs at hb <;> omega
  have hsubset : l ⊆ range k := by
    intro b hb
    have hpos := count_pos_iff.mpr hb
    have hle := h b
    rw [mem_range]
    by_contra hnot
    rw [if_neg hnot] at hle
    omega
  simpa using (subperm_of_subset hnodup hsubset).length_le

theorem SlabMemory.size_lt (m : SlabMemory) : kSize * m.numSlabMemory < 2 ^ 64 := by
  have hend := m.end_le
  have hstart := m.memoryStart_ne_zero
  have hle : m.numSlabMemory ≤ m.memorySize / kSize := Nat.sub_le _ _
  have hmul := Nat.mul_le_mul_left kSize hle
  have hsize := Nat.mul_div_le m.memorySize kSize
  omega

/-- As many slabs as there are can be counted in bytes. -/
theorem toNat_slabBytes {a : SlabAllocator} {k : ℕ} (h : k ≤ a.nextSlabAllocation) :
    (slabBytes k).toNat = kSize * k := by
  have hle := Nat.mul_le_mul_left kSize (h.trans a.nextSlabAllocation_le)
  exact UInt64.toNat_ofNat_of_lt' (Nat.lt_of_le_of_lt hle a.memory.size_lt)

namespace MemoryAllocator

/-! ## What is counted -/

/-- The release that a step may bring to its end: of which pool, in which mode, and whether
`madvise` would succeed. -/
def releaseOf (m : MemoryAllocator) : Label → Option (ℕ × SlabReleaseMode × Bool)
  | .startSlabRelease id _ _ mode _ _ madvised => some (id, mode, madvised)
  | .prune id cid _ madvised => do
      let pool ← m.pools[id]?
      let c ← pool.ac[cid]?
      let (context, _) ← c.starting
      return (id, context.mode, madvised)
  | .completeSlabRelease id _ context madvised => some (id, context.mode, madvised)
  | _ => none

/-- Whether a step may advise a slab of the pool away. -/
def advises (m : MemoryAllocator) (id : ℕ) (l : Label) : Bool :=
  decide (m.releaseOf l = some (id, .kAdvise, true))

/-- The slabs a pool has advised away, and those released from its own free slabs. -/
inductive Heading where
  | advised (id : ℕ)
  | fromFree (id : ℕ)

def recorded : Heading → MemoryAllocator → Label → ℕ
  | .advised id, m, l => if m.advises id l then (m.call l).elim 0 fun r => r.2.numAdvised else 0
  | .fromFree id, m, .startSlabRelease id' victim receiver mode _ _ _ =>
      if id' = id then (m.pools[id']?).elim 0 fun pool => pool.takesFreeSlab victim receiver mode
      else 0
  | .fromFree _, _, _ => 0

/-- No release is stopped by its `shouldAbortFn`, and what is released for a class of the pool
finds it there. -/
def undisturbed (m : MemoryAllocator) : Label → Bool
  | .startSlabRelease id _ receiver _ _ _ _ =>
      (m.pools[id]?).all fun pool => receiver.all fun r => decide (r < pool.ac.length)
  | .prune _ _ shouldAbort _ => !shouldAbort
  | _ => true

/-! ## The invariant -/

/-- **The invariant**, after the headings have been counted up to `n`. -/
structure Inv (n : Heading → ℕ) (m : MemoryAllocator) : Prop where
  once : ∀ b, m.slabs.freeSlabs.count b + m.slabs.advisedSlabs.count b
    + (m.pools.flatMap held).count b
      = if b < m.slabs.nextSlabAllocation then 1 else 0
  owned : ∀ {id pool}, m.pools[id]? = some pool → ∀ b, pool.held.count b ≠ 0 →
    (m.slabs.header b).poolId = some id
  size : ∀ {id pool}, m.pools[id]? = some pool →
    m.slabs.memoryPoolSize (some id) = slabBytes (pool.held.length + n (.advised id))
  counted : ∀ {id pool}, m.pools[id]? = some pool →
    pool.currSlabAllocSize + slabBytes (n (.fromFree id)) = slabBytes pool.classSlabs.length
  advised : m.getNumSlabsAdvised = UInt64.ofNat m.slabs.advisedSlabs.length
  sound : ∀ pool ∈ m.pools, pool.Sound
  fresh : ∀ id, m.pools.length ≤ id →
    m.slabs.memoryPoolSize (some id) = 0 ∧ n (.advised id) = 0 ∧ n (.fromFree id) = 0

/-- What belongs to the other pools. -/
def frame (m : MemoryAllocator) (pool : MemoryPool) : Frame where
  elsewhere b := (m.pools.flatMap held).count b - pool.held.count b
  owner b := (m.slabs.header b).poolId
  size q := m.slabs.memoryPoolSize (some q)
  advised := m.getNumSlabsAdvised - pool.curSlabsAdvised

theorem count_held (p : MemoryPool) (b : Slab) :
    p.held.count b = p.freeSlabs.count b + p.classSlabs.count b := count_append

theorem length_held (p : MemoryPool) :
    p.held.length = p.freeSlabs.length + p.classSlabs.length := length_append

namespace Inv

variable {n n' : Heading → ℕ} {m : MemoryAllocator} {id : ℕ} {pool : MemoryPool}

/-- The invariant has a ledger of each pool, -/
theorem ledger (h : Inv n m) (hpool : m.pools[id]? = some pool) :
    Ledger (m.frame pool) id ⟨m.slabs, pool⟩ [] (n (.advised id)) (n (.fromFree id)) := by
  constructor
  · intro b
    have honce := h.once b
    have hle := count_le_count_flatMap (f := held) hpool b
    have hheld := count_held pool b
    change m.slabs.freeSlabs.count b + m.slabs.advisedSlabs.count b + pool.freeSlabs.count b
      + pool.classSlabs.count b + 0 + ((m.pools.flatMap held).count b
        - pool.held.count b) = if b < m.slabs.nextSlabAllocation then 1 else 0
    omega
  · intro b hb
    apply h.owned hpool b
    rw [count_held]
    exact hb
  · have hsize := h.size hpool
    rw [length_held] at hsize
    exact hsize
  · exact h.counted hpool
  · change pool.curSlabsAdvised + (m.getNumSlabsAdvised - pool.curSlabsAdvised) = _
    rw [← h.advised]
    grind
  · exact h.sound pool (mem_of_getElem? hpool)
  · intro b _
    rfl
  · intro q _
    rfl

/-- and a new ledger of one pool makes a new invariant. -/
theorem set (h : Inv n m) (hpool : m.pools[id]? = some pool) {v : PoolView}
    (hledger : Ledger (m.frame pool) id v [] (n' (.advised id)) (n' (.fromFree id)))
    (hadvised : ∀ q, q ≠ id → n' (.advised q) = n (.advised q))
    (hfromFree : ∀ q, q ≠ id → n' (.fromFree q) = n (.fromFree q)) :
    Inv n' { m with slabs := v.slabs, pools := m.pools.set id v.pool } := by
  have hlt : id < m.pools.length := (List.getElem?_eq_some_iff.mp hpool).1
  have hself : (m.pools.set id v.pool)[id]? = some v.pool := getElem?_set_self hlt
  have hother : ∀ q, q ≠ id → (m.pools.set id v.pool)[q]? = m.pools[q]? := fun q hq =>
    getElem?_set_ne (Ne.symm hq)
  constructor
  · intro b
    have honce := hledger.once b
    have hset := count_flatMap_set (f := held) hpool v.pool b
    have hle := count_le_count_flatMap (f := held) hpool b
    have hheld := count_held v.pool b
    change _ + 0 + ((m.pools.flatMap held).count b - pool.held.count b) = _ at honce
    dsimp only
    omega
  · intro q p hq b hb
    by_cases hid : q = id
    · subst hid
      obtain rfl := some.inj (hself.symm.trans hq)
      apply hledger.owned b
      rw [count_held] at hb
      exact hb
    · have hq' := (hother q hid).symm.trans hq
      have hboth := count_add_count_le (f := held) hpool hq' (Ne.symm hid) b
      have helsewhere : (m.frame pool).elsewhere b ≠ 0 := by
        change (m.pools.flatMap held).count b - pool.held.count b ≠ 0
        omega
      exact (hledger.owner b helsewhere).trans (h.owned hq' b hb)
  · intro q p hq
    by_cases hid : q = id
    · subst hid
      obtain rfl := some.inj (hself.symm.trans hq)
      rw [length_held]
      exact hledger.size
    · rw [hadvised q hid]
      exact (hledger.sizes q hid).trans (h.size ((hother q hid).symm.trans hq))
  · intro q p hq
    by_cases hid : q = id
    · subst hid
      obtain rfl := some.inj (hself.symm.trans hq)
      exact hledger.counted
    · rw [hfromFree q hid]
      exact h.counted ((hother q hid).symm.trans hq)
  · have hsum := foldl_add_set (f := curSlabsAdvised) hpool v.pool 0
    have hcur := hledger.curAdvised
    change _ + (m.getNumSlabsAdvised - pool.curSlabsAdvised) = _ at hcur
    change (m.pools.set id v.pool).foldl _ 0 + _ = m.getNumSlabsAdvised + _ at hsum
    change (m.pools.set id v.pool).foldl _ 0 = _
    grind
  · intro p hp
    rcases mem_or_eq_of_mem_set hp with hmem | rfl
    · exact h.sound p hmem
    · exact hledger.sound
  · intro q hq
    rw [length_set] at hq
    have hid : q ≠ id := by omega
    obtain ⟨hsize, hadv, hfree⟩ := h.fresh q hq
    rw [hadvised q hid, hfromFree q hid]
    exact ⟨(hledger.sizes q hid).trans hsize, hadv, hfree⟩

/-- A call of a pool, through what it does to the ledger. -/
theorem onPool (h : Inv n m) {call : PoolView → Option (Response × PoolView)}
    {r : MemoryAllocator × Response} (hr : m.onPool id call = some r) {k : MemoryPool → ℕ}
    (hcall : ∀ {F : Frame} {pool : MemoryPool} {s : Response × PoolView},
      m.pools[id]? = some pool → call ⟨m.slabs, pool⟩ = some s →
      Ledger F id ⟨m.slabs, pool⟩ [] (n (.advised id)) (n (.fromFree id)) →
      Ledger F id s.2 [] (n (.advised id) + s.1.numAdvised) (n (.fromFree id) + k pool))
    (hadvised : ∀ q, n' (.advised q) = n (.advised q) + if id = q then r.2.numAdvised else 0)
    (hfromFree : ∀ q, n' (.fromFree q)
      = n (.fromFree q) + if id = q then (m.pools[id]?).elim 0 k else 0) :
    Inv n' r.1 := by
  unfold MemoryAllocator.onPool at hr
  rcases hpool : m.pools[id]? with _ | pool
  · rw [hpool] at hr
    obtain rfl := some.inj hr
    have hsame : n' = n := by
      funext i
      rcases i with q | q
      · simpa [Response.numAdvised] using hadvised q
      · simpa [hpool] using hfromFree q
    rw [hsame]
    exact h
  · rw [hpool] at hr
    obtain ⟨s, hs, rfl⟩ := map_eq_some_iff.mp hr
    have hledger : Ledger (m.frame pool) id s.2 [] (n' (.advised id)) (n' (.fromFree id)) := by
      rw [hadvised, hfromFree, if_pos rfl, if_pos rfl, hpool]
      exact hcall hpool hs (h.ledger hpool)
    refine h.set hpool hledger ?_ ?_
    · intro q hq
      rw [hadvised, if_neg (Ne.symm hq), Nat.add_zero]
    · intro q hq
      rw [hfromFree, if_neg (Ne.symm hq), Nat.add_zero]

/-- A call of a pool that counts nothing. -/
theorem onPool_quiet (h : Inv n m) {call : PoolView → Option (Response × PoolView)}
    {r : MemoryAllocator × Response} (hr : m.onPool id call = some r)
    (hcall : ∀ {F : Frame} {v : PoolView} {s : Response × PoolView} {a f : ℕ},
      call v = some s → Ledger F id v [] a f → Ledger F id s.2 [] a f) :
    Inv n r.1 := by
  unfold MemoryAllocator.onPool at hr
  rcases hpool : m.pools[id]? with _ | pool
  · rw [hpool] at hr
    exact some.inj hr ▸ h
  · rw [hpool] at hr
    obtain ⟨s, hs, rfl⟩ := map_eq_some_iff.mp hr
    exact h.set hpool (hcall hs (h.ledger hpool)) (fun _ _ => rfl) fun _ _ => rfl

/-- The size of a pool is no concern of the ledger. -/
theorem resize (h : Inv n m) (hpool : m.pools[id]? = some pool) (size : UInt64) :
    Inv n (m.resize id pool size) := by
  refine h.set hpool (v := ⟨m.slabs, { pool with maxSize := size }⟩) ?_ (fun _ _ => rfl)
    fun _ _ => rfl
  exact (h.ledger hpool).congr (SlabAllocator.SameSlabs.refl _) rfl rfl rfl rfl

theorem resizePools (h : Inv n m) (src dest : ℕ) (bytes : UInt64) :
    Inv n (m.resizePools src dest bytes).1 := by
  unfold MemoryAllocator.resizePools
  split
  · rename_i srcPool destPool hsrc hdest
    split_ifs
    · exact h
    · have hshrunk := h.resize hsrc (srcPool.maxSize - bytes)
      dsimp only
      split
      · exact hshrunk
      · rename_i destPool' hdest'
        exact hshrunk.resize hdest' _
  · exact h

theorem shrinkPool (h : Inv n m) (id : ℕ) (bytes : UInt64) : Inv n (m.shrinkPool id bytes).1 := by
  unfold MemoryAllocator.shrinkPool
  rcases hpool : m.pools[id]? with _ | pool
  · exact h
  · dsimp only
    split_ifs
    · exact h
    · exact h.resize hpool _

theorem growPool (h : Inv n m) (id : ℕ) (bytes : UInt64) : Inv n (m.growPool id bytes).1 := by
  unfold MemoryAllocator.growPool
  rcases hpool : m.pools[id]? with _ | pool
  · exact h
  · dsimp only
    split_ifs
    · exact h
    · exact h.resize hpool _

end Inv

/-! ### A new pool -/

/-- A new class has no slabs. -/
theorem createAllocationClasses_new {id : ℕ} {sizes : List ℕ} {ac : List PoolClass}
    (h : createAllocationClasses id sizes = .ok ac) :
    ∀ c ∈ ac, c.slabs = [] ∧ ∀ k, c.Sound k := by
  induction sizes generalizing id ac with
  | nil =>
      obtain rfl := Except.ok.inj h
      simp
  | cons size sizes ih =>
      rw [createAllocationClasses] at h
      split_ifs at h with hsize
      rcases hrest : createAllocationClasses (id + 1) sizes with e | ac'
      · rw [hrest] at h
        exact absurd h (by simp)
      · rw [hrest] at h
        obtain rfl := Except.ok.inj h
        rw [forall_mem_cons]
        exact ⟨⟨rfl, fun _ => ⟨nofun, nofun⟩⟩, ih hrest⟩

/-- So a new pool holds none, and its counters are zero. -/
theorem newPool_new {name : String} {poolSize : UInt64} {allocSizes : List ℕ} {pool : MemoryPool}
    (h : newPool name poolSize allocSizes = .ok pool) :
    pool.freeSlabs = [] ∧ pool.classSlabs = [] ∧ pool.currSlabAllocSize = 0 ∧
      pool.curSlabsAdvised = 0 ∧ pool.Sound := by
  unfold newPool at h
  rcases hac : createAllocationClasses 0 allocSizes with e | ac
  · simp [hac] at h
  · have hnew := createAllocationClasses_new hac
    rcases ac with _ | ⟨c, ac⟩
    · simp [hac] at h
    · simp only [hac, Except.ok.injEq] at h
      subst h
      refine ⟨rfl, ?_, rfl, rfl, fun d hd => (hnew d hd).2 _⟩
      exact flatMap_eq_nil_iff.mpr fun d hd => (hnew d hd).1

theorem Inv.createNewPool {n : Heading → ℕ} {m : MemoryAllocator} (h : Inv n m) (name : String)
    (poolSize : UInt64) (allocSizes : List ℕ) :
    Inv n (m.createNewPool name poolSize allocSizes).1 := by
  unfold MemoryAllocator.createNewPool
  split_ifs
  · exact h
  · exact h
  · exact h
  rcases hnew : newPool name poolSize allocSizes with e | pool
  · exact h
  obtain ⟨hfree, hclass, hcurr, hcur, hsound⟩ := newPool_new hnew
  have hheld : pool.held = [] := by
    unfold held
    rw [hfree, hclass]
    rfl
  obtain ⟨hsize, hadvised, hfromFree⟩ := h.fresh m.pools.length (Nat.le_refl _)
  -- the new pool is the last one, and the others are where they were
  have hcases : ∀ {q p}, (m.pools ++ [pool])[q]? = some p →
      m.pools[q]? = some p ∨ q = m.pools.length ∧ p = pool := by
    intro q p hq
    rw [getElem?_append] at hq
    split_ifs at hq with hlt
    · exact Or.inl hq
    · right
      rw [getElem?_singleton] at hq
      split_ifs at hq with hzero
      exact ⟨by omega, (some.inj hq).symm⟩
  constructor
  · intro b
    rw [flatMap_append, flatMap_singleton, hheld, append_nil]
    exact h.once b
  · intro q p hq b hb
    rcases hcases hq with hq | ⟨-, rfl⟩
    · exact h.owned hq b hb
    · rw [hheld] at hb
      exact absurd rfl hb
  · intro q p hq
    rcases hcases hq with hq | ⟨rfl, rfl⟩
    · exact h.size hq
    · rw [hheld, hadvised]
      exact hsize
  · intro q p hq
    rcases hcases hq with hq | ⟨rfl, rfl⟩
    · exact h.counted hq
    · rw [hclass, hfromFree, hcurr]
      rfl
  · change (m.pools ++ [pool]).foldl _ 0 = _
    rw [foldl_append, foldl_cons, foldl_nil, hcur]
    exact (UInt64.add_zero _).trans h.advised
  · intro p hp
    rcases mem_append.mp hp with hp | hp
    · exact h.sound p hp
    · exact mem_singleton.mp hp ▸ hsound
  · intro q hq
    rw [length_append] at hq
    exact h.fresh q (by omega)

theorem Inv.addPool {n : Heading → ℕ} {m : MemoryAllocator} (h : Inv n m) (name : String)
    (size : UInt64) (allocSizes : List ℕ) (ensureProvisionable : Bool) :
    Inv n (m.addPool name size allocSizes ensureProvisionable).1 := by
  unfold MemoryAllocator.addPool
  generalize (if allocSizes.isEmpty then m.allocSizes else allocSizes) = poolAllocSizes
  dsimp only
  split_ifs
  · exact h
  · exact h
  · exact h.createNewPool name size poolAllocSizes

/-! ### A step -/

section Step

variable {n : Heading → ℕ} {m : MemoryAllocator} {l : Label} {id : ℕ}
  {call : PoolView → Option (Response × PoolView)} {r : MemoryAllocator × Response}

/-- A step that releases nothing counts nothing. -/
theorem Inv.quiet {t : MemoryAllocator} (ht : Inv n t) (hnone : m.releaseOf l = none)
    (hnot : ∀ q, recorded (.fromFree q) m l = 0) : Inv (fun i => n i + recorded i m l) t := by
  have hsame : (fun i => n i + recorded i m l) = n := by
    funext i
    rcases i with q | q
    · rw [recorded, advises, hnone]
      rfl
    · rw [hnot q, Nat.add_zero]
  rw [hsame]
  exact ht

/-- What a release counts under `advised`. -/
theorem recorded_advised (hl : m.call l = m.onPool id call) (hr : m.call l = some r)
    (hid : ∀ q, m.advises q l = true → id = q)
    (hnone : ∀ {pool s}, m.pools[id]? = some pool → call ⟨m.slabs, pool⟩ = some s →
      m.advises id l = false → s.1.numAdvised = 0) (q : ℕ) :
    recorded (.advised q) m l = if id = q then r.2.numAdvised else 0 := by
  rw [recorded, hr, elim_some]
  by_cases hadvises : m.advises q l = true
  · rw [if_pos hadvises, if_pos (hid q hadvises)]
  · rw [if_neg hadvises]
    by_cases hq : id = q
    · subst hq
      rw [if_pos rfl]
      have hcall := hl.symm.trans hr
      unfold onPool at hcall
      rcases hpool : m.pools[id]? with _ | pool
      · rw [hpool] at hcall
        exact some.inj hcall ▸ rfl
      · rw [hpool] at hcall
        obtain ⟨s, hs, rfl⟩ := map_eq_some_iff.mp hcall
        exact (hnone hpool hs (Bool.eq_false_iff.mpr hadvises)).symm
    · rw [if_neg hq]

/-- A release that takes none of the pool's own free slabs. -/
theorem Inv.release (h : Inv n m) (hl : m.call l = m.onPool id call) (hr : m.call l = some r)
    (hadvised : ∀ q, recorded (.advised q) m l = if id = q then r.2.numAdvised else 0)
    (hfromFree : ∀ q, recorded (.fromFree q) m l = 0)
    (hcall : ∀ {F : Frame} {v : PoolView} {s : Response × PoolView} {a f : ℕ},
      call v = some s → Ledger F id v [] a f → Ledger F id s.2 [] (a + s.1.numAdvised) f) :
    Inv (fun i => n i + recorded i m l) r.1 := by
  refine h.onPool (hl.symm.trans hr) (k := fun _ => 0) ?_ ?_ ?_
  · intro F pool s _ hs hledger
    exact hcall hs hledger
  · intro q
    rw [hadvised]
  · intro q
    rw [hfromFree q]
    rcases m.pools[id]? <;> simp

end Step

/-- **Every undisturbed step keeps the invariant.** -/
theorem Inv.step {n : Heading → ℕ} {m t : MemoryAllocator} {l : Label} (h : Inv n m)
    (hC : m.undisturbed l = true) (ht : m.step l = some t) :
    Inv (fun i => n i + recorded i m l) t := by
  obtain ⟨r, hr, rfl⟩ := map_eq_some_iff.mp ht
  cases l with
  | addPool name size allocSizes ensureProvisionable =>
      refine Inv.quiet ?_ rfl fun _ => rfl
      simp only [call, ite_none_right_eq_some, some.injEq] at hr
      obtain ⟨-, rfl⟩ := hr
      exact h.addPool name size allocSizes ensureProvisionable
  | provisionPool id slabsDistribution =>
      rw [call] at hr
      refine Inv.quiet (h.onPool_quiet hr ?_) rfl fun _ => rfl
      intro F v s a f hs hledger
      exact hledger.provision hs
  | resizePools src dest bytes =>
      refine Inv.quiet ?_ rfl fun _ => rfl
      exact some.inj hr ▸ h.resizePools src dest bytes
  | shrinkPool id bytes =>
      refine Inv.quiet ?_ rfl fun _ => rfl
      exact some.inj hr ▸ h.shrinkPool id bytes
  | growPool id bytes =>
      refine Inv.quiet ?_ rfl fun _ => rfl
      exact some.inj hr ▸ h.growPool id bytes
  | allocate id size =>
      rw [call] at hr
      refine Inv.quiet (h.onPool_quiet hr ?_) rfl fun _ => rfl
      intro F v s a f hs hledger
      exact some.inj hs ▸ hledger.allocate size
  | free memory =>
      refine Inv.quiet ?_ rfl fun _ => rfl
      rw [call, free] at hr
      split_ifs at hr with hnext
      · exact some.inj hr ▸ h
      rcases hid : (m.slabs.header memory.1).poolId with _ | id
      · rw [hid] at hr
        exact some.inj hr ▸ h
      · rw [hid] at hr
        refine h.onPool_quiet hr ?_
        intro F v s a f hs hledger
        exact some.inj hs ▸ hledger.free memory
  | startSlabRelease id victim receiver mode hint random madvised =>
      have hcall : m.call (.startSlabRelease id victim receiver mode hint random madvised)
          = m.onPool id fun v => v.startSlabRelease id victim receiver mode hint random madvised :=
        rfl
      refine h.onPool (hcall.symm.trans hr)
        (k := fun pool => pool.takesFreeSlab victim receiver mode) ?_ ?_ ?_
      · intro F pool s hpool hs hledger
        refine hledger.startSlabRelease ?_ hs
        intro receiver' hreceiver
        have hin : (receiver.all fun r => decide (r < pool.ac.length)) = true := by
          simpa [undisturbed, hpool] using hC
        simpa [hreceiver] using hin
      · intro q
        rw [recorded_advised hcall hr]
        · intro q hadvises
          rw [advises, decide_eq_true_iff, releaseOf] at hadvises
          exact congrArg Prod.fst (some.inj hadvises)
        · intro pool s _ hs hadvises
          refine PoolView.numAdvised_startSlabRelease ?_ hs
          rintro ⟨rfl, rfl⟩
          exact absurd hadvises (by simp [advises, releaseOf])
      · intro q
        rfl
  | prune id cid shouldAbort madvised =>
      obtain rfl : shouldAbort = false := by simpa [undisturbed] using hC
      have hcall : m.call (.prune id cid false madvised)
          = m.onPool id fun v => v.prune cid false madvised := rfl
      refine h.release hcall hr (recorded_advised hcall hr ?_ ?_) (fun _ => rfl)
        fun hs hledger => hledger.prune hs
      · intro q hadvises
        rw [advises, decide_eq_true_iff, releaseOf] at hadvises
        simp only [bind_eq_bind, bind_eq_some_iff] at hadvises
        obtain ⟨pool, -, c, -, ⟨context, position⟩, -, heq⟩ := hadvises
        exact congrArg Prod.fst (some.inj heq)
      · intro pool s hpool hs hadvises
        refine PoolView.numAdvised_prune ?_ hs
        rintro c context position hc hstarting ⟨hmode, rfl⟩
        exact absurd hadvises (by simp [advises, releaseOf, hpool, hc, hstarting, hmode])
  | abortSlabRelease id cid context =>
      rw [call] at hr
      refine Inv.quiet (h.onPool_quiet hr ?_) rfl fun _ => rfl
      intro F v s a f hs hledger
      exact hledger.abortSlabRelease hs
  | completeSlabRelease id cid context madvised =>
      have hcall : m.call (.completeSlabRelease id cid context madvised)
          = m.onPool id fun v => v.completeSlabRelease cid context madvised := rfl
      refine h.release hcall hr (recorded_advised hcall hr ?_ ?_) (fun _ => rfl)
        fun hs hledger => hledger.completeSlabRelease hs
      · intro q hadvises
        rw [advises, decide_eq_true_iff, releaseOf] at hadvises
        exact congrArg Prod.fst (some.inj hadvises)
      · intro pool s _ hs hadvises
        refine PoolView.numAdvised_completeSlabRelease ?_ hs
        rintro ⟨hmode, rfl⟩
        exact absurd hadvises (by simp [advises, releaseOf, hmode])
  | reclaimSlabsAndGrow id numSlabs =>
      rw [call] at hr
      refine Inv.quiet (h.onPool_quiet hr ?_) rfl fun _ => rfl
      intro F v s a f hs hledger
      exact some.inj hs ▸ hledger.reclaimSlabsAndGrow numSlabs

theorem Inv.init (memory : SlabMemory) (allocSizes : List ℕ) :
    Inv (fun _ => 0) (init memory allocSizes) where
  once b := by
    change 0 = if b < 0 then 1 else 0
    rw [if_neg (Nat.not_lt_zero b)]
  owned h := by simp [MemoryAllocator.init] at h
  size h := by simp [MemoryAllocator.init] at h
  counted h := by simp [MemoryAllocator.init] at h
  advised := rfl
  sound := nofun
  fresh _ _ := ⟨rfl, rfl, rfl⟩

/-- **The counters of a pool**, in every run without a disturbed release. -/
theorem slab_counters_of_undisturbed {memory : SlabMemory} {allocSizes : List ℕ} {ls : List Label}
    {m : MemoryAllocator} (hrun : exec step (init memory allocSizes) ls = some m)
    (hC : Along step (fun m l => m.undisturbed l = true) (init memory allocSizes) ls) :
    Inv (fun i => tally step (recorded i) (MemoryAllocator.init memory allocSizes) ls) m :=
  exec_invariant_tally (fun _ _ _ _ hinv hundisturbed ht => hinv.step hundisturbed ht) hrun hC
    (Inv.init memory allocSizes)

/-! ## Where the slabs are -/

/-- The places of a slab. -/
inductive Place where
  | freeList
  | advisedList
  | pool (id : ℕ)
  deriving DecidableEq, Repr

def slabsAt (m : MemoryAllocator) : Place → List Slab
  | .freeList => m.slabs.freeSlabs
  | .advisedList => m.slabs.advisedSlabs
  | .pool id => (m.pools[id]?).elim [] held

namespace Inv

variable {n : Heading → ℕ} {m : MemoryAllocator} {id : ℕ} {pool : MemoryPool}

theorem exists_place (h : Inv n m) {slab : Slab} (hslab : slab < m.slabs.nextSlabAllocation) :
    ∃ place, (m.slabsAt place).count slab = 1 ∧
      ∀ place', place' ≠ place → slab ∉ m.slabsAt place' := by
  have honce := h.once slab
  rw [if_pos hslab] at honce
  -- what a pool has is among what the pools have
  have hpools : ∀ q, (m.slabsAt (.pool q)).count slab
      ≤ (m.pools.flatMap held).count slab := by
    intro q
    rcases hq : m.pools[q]? with _ | p
    · rw [slabsAt, hq]
      exact Nat.zero_le _
    · rw [slabsAt, hq, elim_some]
      exact count_le_count_flatMap hq slab
  by_cases hfree : m.slabs.freeSlabs.count slab = 1
  · refine ⟨.freeList, hfree, ?_⟩
    rintro (_ | _ | q) hne hmem
    · exact hne rfl
    all_goals have hpos := count_pos_iff.mpr hmem
    · change 0 < m.slabs.advisedSlabs.count slab at hpos
      omega
    · have hle := hpools q
      omega
  by_cases hadvised : m.slabs.advisedSlabs.count slab = 1
  · refine ⟨.advisedList, hadvised, ?_⟩
    rintro (_ | _ | q) hne hmem
    all_goals have hpos := count_pos_iff.mpr hmem
    · change 0 < m.slabs.freeSlabs.count slab at hpos
      omega
    · exact hne rfl
    · have hle := hpools q
      omega
  have hpool : (m.pools.flatMap held).count slab = 1 := by omega
  obtain ⟨i, p, hi, hp, hothers⟩ := exists_of_count_flatMap hpool
  refine ⟨.pool i, by simpa [slabsAt, hi] using hp, ?_⟩
  rintro (_ | _ | q) hne hmem
  · have hpos := count_pos_iff.mpr hmem
    change 0 < m.slabs.freeSlabs.count slab at hpos
    omega
  · have hpos := count_pos_iff.mpr hmem
    change 0 < m.slabs.advisedSlabs.count slab at hpos
    omega
  · have hq : q ≠ i := fun e => hne (congrArg Place.pool e)
    rcases hget : m.pools[q]? with _ | p'
    · rw [slabsAt, hget] at hmem
      exact absurd hmem not_mem_nil
    · rw [slabsAt, hget] at hmem
      exact hothers q p' hq hget hmem

/-- A pool holds no more slabs than there are. -/
theorem length_held_le (h : Inv n m) (hpool : m.pools[id]? = some pool) :
    pool.held.length ≤ m.slabs.nextSlabAllocation := by
  apply length_le_of_count_le
  intro b
  have honce := h.once b
  have hle := count_le_count_flatMap (f := held) hpool b
  omega

theorem length_advised_le (h : Inv n m) :
    m.slabs.advisedSlabs.length ≤ m.slabs.nextSlabAllocation := by
  apply length_le_of_count_le
  intro b
  have honce := h.once b
  omega

end Inv

/-! ## The counters -/

section Runs

variable {memory : SlabMemory} {allocSizes : List ℕ} {ls : List Label} {m : MemoryAllocator}

/-- **Slabs are conserved.** In every run without a disturbed release, a slab that has been carved
out is in one place and the numbers of advised slabs add up; and the size of a pool is that of the
slabs it holds if it has advised none away. -/
theorem slabs_conserved (hrun : exec step (init memory allocSizes) ls = some m)
    (hC : Along step (fun m l => m.undisturbed l = true) (init memory allocSizes) ls) :
    (∀ slab, slab < m.slabs.nextSlabAllocation →
      ∃ place, (m.slabsAt place).count slab = 1 ∧
        ∀ place', place' ≠ place → slab ∉ m.slabsAt place') ∧
    (∀ id pool, m.pools[id]? = some pool →
      Along step (fun m l => m.advises id l = false) (init memory allocSizes) ls →
      (m.slabs.memoryPoolSize (some id)).toNat = kSize * pool.held.length) ∧
    m.getNumSlabsAdvised.toNat = m.slabs.advisedSlabs.length := by
  have hinv := slab_counters_of_undisturbed hrun hC
  refine ⟨fun slab hslab => hinv.exists_place hslab, ?_, ?_⟩
  · intro id pool hpool hadvises
    have hzero : tally step (recorded (.advised id)) (init memory allocSizes) ls = 0 := by
      apply tally_eq_zero
      refine hadvises.mono ?_
      intro s l hfalse
      rw [recorded, hfalse]
      rfl
    have hsize := hinv.size hpool
    rw [hzero, Nat.add_zero] at hsize
    rw [hsize, toNat_slabBytes (hinv.length_held_le hpool)]
  · have hle := hinv.length_advised_le
    have hlt := m.slabs.memory.size_lt
    have hnext := m.slabs.nextSlabAllocation_le
    have hpos : 0 < kSize := by decide
    have hmul := Nat.le_mul_of_pos_left m.slabs.memory.numSlabMemory hpos
    have hfits : m.slabs.advisedSlabs.length < 2 ^ 64 := by omega
    rw [hinv.advised]
    exact UInt64.toNat_ofNat_of_lt' hfits

/-- Memory for the headers and one slab. -/
def oneSlab : SlabMemory where
  memoryStart := kSize
  memorySize := 2 * kSize
  memoryStart_ne_zero := by decide
  memoryStart_aligned := by decide
  memorySize_aligned := by decide
  headers_lt := by decide
  end_le := by decide

/-- A pool whose only class has the slab, with the one chunk of it handed out. -/
def slabTaken : List Label :=
  [.addPool "pool" kSlabSize [kSize] false, .allocate 0 100]

/-- The chunk comes back and the slab is released. -/
def slabReleased (mode : SlabReleaseMode) : List Label :=
  slabTaken ++ [.free (0, 0), .startSlabRelease 0 (some 0) none mode none 0 true]
    ++ replicate 4 (.prune 0 0 false true)

theorem slabs_conserved_slabTaken :
    ∃ m pool, exec step (init oneSlab [kSize]) slabTaken = some m ∧
      m.pools[0]? = some pool ∧ pool.held = [0] ∧
      (∃ place, (m.slabsAt place).count 0 = 1 ∧ ∀ place', place' ≠ place → 0 ∉ m.slabsAt place') ∧
      (m.slabs.memoryPoolSize (some 0)).toNat = kSize * pool.held.length ∧
      m.getNumSlabsAdvised.toNat = m.slabs.advisedSlabs.length := by
  obtain ⟨m, hrun, hnext, pool, hpool, hslab⟩ :
      ∃ m, exec step (init oneSlab [kSize]) slabTaken = some m ∧
        0 < m.slabs.nextSlabAllocation ∧ ∃ pool, m.pools[0]? = some pool ∧ pool.held = [0] := by
    decide +kernel
  obtain ⟨honce, hsize, hadvised⟩ := slabs_conserved hrun (by decide +kernel)
  exact ⟨m, pool, hrun, hpool, hslab, honce 0 hnext, hsize 0 pool hpool (by decide +kernel), hadvised⟩

/-- The pool advises its only slab away and holds none, but its size is still that of one. -/
theorem advised_slab_still_in_pool_size :
    ∃ m pool, exec step (init oneSlab [kSize]) (slabReleased .kAdvise) = some m ∧
      m.pools[0]? = some pool ∧ pool.held = [] ∧ m.slabs.advisedSlabs = [0] ∧
      (m.slabs.memoryPoolSize (some 0)).toNat = kSize := by
  obtain ⟨m, hrun, pool, hpool, hfacts⟩ :
      ∃ m, exec step (init oneSlab [kSize]) (slabReleased .kAdvise) = some m ∧
        ∃ pool, m.pools[0]? = some pool ∧ pool.held = [] ∧ m.slabs.advisedSlabs = [0] ∧
          (m.slabs.memoryPoolSize (some 0)).toNat = kSize := by decide +kernel
  exact ⟨m, pool, hrun, hpool, hfacts⟩

/-- **The byte counter of a pool.** In every run without a disturbed release, it has the slabs of
the pool's allocation classes and no others, if the pool has released none of its own free slabs. -/
theorem currSlabAllocSize_eq_class_slabs (hrun : exec step (init memory allocSizes) ls = some m)
    (hC : Along step (fun m l => m.undisturbed l = true) (init memory allocSizes) ls) {id : ℕ}
    {pool : MemoryPool} (hpool : m.pools[id]? = some pool)
    (hfree : Along step (fun m l => recorded (.fromFree id) m l = 0) (init memory allocSizes) ls) :
    pool.currSlabAllocSize.toNat = kSize * pool.classSlabs.length := by
  have hinv := slab_counters_of_undisturbed hrun hC
  have hcounted := hinv.counted hpool
  have hle := hinv.length_held_le hpool
  rw [length_held] at hle
  rw [tally_eq_zero hfree] at hcounted
  have hexact : pool.currSlabAllocSize = slabBytes pool.classSlabs.length :=
    (UInt64.add_zero _).symm.trans hcounted
  rw [hexact, toNat_slabBytes (a := m.slabs) (by omega)]

theorem currSlabAllocSize_eq_class_slabs_slabTaken :
    ∃ m pool, exec step (init oneSlab [kSize]) slabTaken = some m ∧
      m.pools[0]? = some pool ∧ pool.classSlabs = [0] ∧
      pool.currSlabAllocSize.toNat = kSize * pool.classSlabs.length := by
  obtain ⟨m, hrun, pool, hpool, hslab⟩ :
      ∃ m, exec step (init oneSlab [kSize]) slabTaken = some m ∧
        ∃ pool, m.pools[0]? = some pool ∧ pool.classSlabs = [0] := by decide +kernel
  exact ⟨m, pool, hrun, hpool, hslab, currSlabAllocSize_eq_class_slabs hrun (by decide +kernel) hpool
    (by decide +kernel)⟩

/-- The slab goes to the pool's own free slabs and from there to the slab allocator. It is taken off
the counter both times, the second time from zero. -/
theorem free_slab_released_twice_from_counter :
    ∃ m pool, exec step (init oneSlab [kSize])
        (slabReleased .kRebalance ++ [.startSlabRelease 0 none none .kResize none 0 true]) = some m ∧
      m.pools[0]? = some pool ∧ pool.classSlabs = [] ∧
      pool.currSlabAllocSize.toNat = 2 ^ 64 - kSize := by
  obtain ⟨m, hrun, pool, hpool, hfacts⟩ : ∃ m, exec step (init oneSlab [kSize])
        (slabReleased .kRebalance ++ [.startSlabRelease 0 none none .kResize none 0 true]) = some m ∧
      ∃ pool, m.pools[0]? = some pool ∧ pool.classSlabs = [] ∧
        pool.currSlabAllocSize.toNat = 2 ^ 64 - kSize := by decide +kernel
  exact ⟨m, pool, hrun, hpool, hfacts⟩

end Runs

end MemoryAllocator

end CacheLib
