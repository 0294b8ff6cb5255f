/-
The slabs of a pool as a ledger: where each slab is, and what the counters of the pool and
of the slab allocator say about it.

A call of a pool takes a slab from one place and puts it into another, and in between it is
in neither. `Ledger` therefore has the slabs that a call has in hand beside those of the
pool, and a `Frame`: what belongs to the other pools. There is one lemma for each way a slab
can go, then one for each function of a pool, from a ledger to a ledger.

Two counters are off, and the ledger says by how much: `memoryPoolSize` still has every
slab that the pool has advised away, and `currSlabAllocSize` goes down once too often for
every slab that leaves the pool from its own free slabs.
-/
import Mathlib.Data.UInt
import CacheLib.Allocator.AbortedRelease
import CacheLib.Allocator.MemoryAllocator

set_option autoImplicit false

namespace CacheLib

open Function List Option UInt64

open AllocationClass (Slab Alloc Config Class)

/-! ## A family of lists of slabs -/

section Family

variable {α : Type} {f : α → List Slab} {l : List α} {i : ℕ} {x : α}

/-- Replacing one member exchanges its slabs. -/
theorem count_flatMap_set (h : l[i]? = some x) (y : α) (b : Slab) :
    ((l.set i y).flatMap f).count b + (f x).count b = (l.flatMap f).count b + (f y).count b := by
  induction l generalizing i with
  | nil => simp at h
  | cons a l ih =>
      rcases i with _ | i
      · simp only [getElem?_cons_zero, some.injEq] at h
        subst h
        simp only [set_cons_zero, flatMap_cons, count_append]
        omega
      · have htail := ih (i := i) (by simpa using h)
        simp only [set_cons_succ, flatMap_cons, count_append]
        omega

theorem count_le_count_flatMap (h : l[i]? = some x) (b : Slab) :
    (f x).count b ≤ (l.flatMap f).count b := by
  induction l generalizing i with
  | nil => simp at h
  | cons a l ih =>
      rw [flatMap_cons, count_append]
      rcases i with _ | i
      · simp only [getElem?_cons_zero, some.injEq] at h
        subst h
        exact Nat.le_add_right _ _
      · have htail := ih (i := i) (by simpa using h)
        omega

/-- Two members have what they have apart from each other. -/
theorem count_add_count_le {i' : ℕ} {x' : α} (h : l[i]? = some x) (h' : l[i']? = some x')
    (hne : i ≠ i') (b : Slab) : (f x).count b + (f x').count b ≤ (l.flatMap f).count b := by
  induction l generalizing i i' with
  | nil => simp at h
  | cons a l ih =>
      rw [flatMap_cons, count_append]
      rcases i with _ | i
      · rcases i' with _ | i'
        · exact absurd rfl hne
        simp only [getElem?_cons_zero, some.injEq] at h
        subst h
        exact Nat.add_le_add_left (count_le_count_flatMap (by simpa using h') b) _
      · rcases i' with _ | i'
        · simp only [getElem?_cons_zero, some.injEq] at h'
          subst h'
          rw [Nat.add_comm]
          exact Nat.add_le_add_left (count_le_count_flatMap (by simpa using h) b) _
        · rw [getElem?_cons_succ] at h h'
          have htail := ih h h' fun e => hne (congrArg _ e)
          omega

end Family

theorem count_cons_eq_add (slab : Slab) (l : List Slab) (b : Slab) :
    (slab :: l).count b = [slab].count b + l.count b := by
  rw [← count_append, singleton_append]

/-- Lists with the same slabs are equally long. -/
theorem length_add_eq_of_count {l₁ l₂ m₁ m₂ : List Slab}
    (h : ∀ b, l₁.count b + l₂.count b = m₁.count b + m₂.count b) :
    l₁.length + l₂.length = m₁.length + m₂.length := by
  have hperm : (l₁ ++ l₂).Perm (m₁ ++ m₂) := by
    rw [perm_iff_count]
    intro b
    rw [count_append, count_append, h b]
  simpa only [length_append] using hperm.length_eq

/-! ## What a pool holds -/

/-- The slabs of a class: those in its two vectors, and those that are being released. -/
def PoolClass.slabs (c : PoolClass) : List Slab :=
  c.cls.allocatedSlabs ++ c.cls.freeSlabs ++ (c.starting.map fun s => s.1.slab).toList
    ++ c.contexts.map fun context => context.slab

/-- The slabs that the allocation classes of a pool hold. -/
def MemoryPool.classSlabs (p : MemoryPool) : List Slab := p.ac.flatMap PoolClass.slabs

/-- The slabs that a pool holds, its own free slabs and those of its classes. -/
def MemoryPool.held (p : MemoryPool) : List Slab := p.freeSlabs ++ p.classSlabs

theorem PoolClass.count_slabs (c : PoolClass) (b : Slab) :
    c.slabs.count b = c.cls.listed b + (c.starting.map fun s => s.1.slab).toList.count b
      + (c.contexts.map fun context => context.slab).count b := by
  simp only [slabs, count_append, Class.listed]

/-- The receiver, if there is one, is among the first `k` classes. -/
def SlabReleaseContext.ReceiverIn (k : ℕ) (context : SlabReleaseContext) : Prop :=
  ∀ receiver, context.receiver = some receiver → receiver < k

/-- No release of the class is about to throw, and what is released can be received. -/
structure PoolClass.Sound (k : ℕ) (c : PoolClass) : Prop where
  starting : ∀ {context position}, c.starting = some (context, position) →
    position ≠ .aborted ∧ context.ReceiverIn k
  contexts : ∀ context ∈ c.contexts, context.ReceiverIn k

/-- So for all classes of the pool. -/
def MemoryPool.Sound (p : MemoryPool) : Prop := ∀ c ∈ p.ac, c.Sound p.ac.length

section Classes

variable {p q : MemoryPool}

theorem MemoryPool.classSlabs_congr (h : p.ac = q.ac) : p.classSlabs = q.classSlabs := by
  unfold classSlabs
  rw [h]

theorem MemoryPool.Sound.congr (hsound : q.Sound) (h : p.ac = q.ac) : p.Sound := by
  unfold Sound
  rw [h]
  exact hsound

end Classes

/-- The bytes of `k` slabs, as the counters have them. -/
def slabBytes (k : ℕ) : UInt64 := ofNat (Slab.kSize * k)

theorem slabBytes_succ (k : ℕ) : slabBytes (k + 1) = slabBytes k + kSlabSize := by
  unfold slabBytes kSlabSize
  rw [Nat.mul_add, Nat.mul_one, ofNat_add]

/-- Two slab allocators that differ in their hint and in what a class writes into the headers. -/
structure SlabAllocator.SameSlabs (a a' : SlabAllocator) : Prop where
  nextSlabAllocation : a.nextSlabAllocation = a'.nextSlabAllocation
  freeSlabs : a.freeSlabs = a'.freeSlabs
  advisedSlabs : a.advisedSlabs = a'.advisedSlabs
  memoryPoolSize : a.memoryPoolSize = a'.memoryPoolSize
  poolId : ∀ b, (a.header b).poolId = (a'.header b).poolId

theorem SlabAllocator.SameSlabs.refl (a : SlabAllocator) : a.SameSlabs a :=
  ⟨rfl, rfl, rfl, rfl, fun _ => rfl⟩

/-! ## The ledger -/

/-- What a call of one pool leaves alone: what is with the other pools. -/
structure Frame where
  elsewhere : Slab → ℕ
  owner : Slab → Option ℕ
  size : ℕ → UInt64
  advised : UInt64

/-- **The ledger** of the pool `id` in a call that has the slabs `hand` in hand, after the pool has
advised `advised` slabs away and released `fromFree` of its own free slabs. -/
structure Ledger (F : Frame) (id : ℕ) (v : PoolView) (hand : List Slab) (advised fromFree : ℕ) :
    Prop where
  once : ∀ b, v.slabs.freeSlabs.count b + v.slabs.advisedSlabs.count b + v.pool.freeSlabs.count b
    + v.pool.classSlabs.count b + hand.count b + F.elsewhere b
      = if b < v.slabs.nextSlabAllocation then 1 else 0
  owned : ∀ b, v.pool.freeSlabs.count b + v.pool.classSlabs.count b + hand.count b ≠ 0 →
    (v.slabs.header b).poolId = some id
  size : v.slabs.memoryPoolSize (some id)
    = slabBytes (v.pool.freeSlabs.length + v.pool.classSlabs.length + hand.length + advised)
  counted : v.pool.currSlabAllocSize + slabBytes fromFree
    = slabBytes (v.pool.classSlabs.length + hand.length)
  curAdvised : v.pool.curSlabsAdvised + F.advised = ofNat v.slabs.advisedSlabs.length
  sound : v.pool.Sound
  owner : ∀ b, F.elsewhere b ≠ 0 → (v.slabs.header b).poolId = F.owner b
  sizes : ∀ q, q ≠ id → v.slabs.memoryPoolSize (some q) = F.size q

namespace Ledger

variable {F : Frame} {id : ℕ} {v : PoolView} {hand : List Slab} {advised fromFree : ℕ}
  {a : SlabAllocator} {p : MemoryPool} {slab : Slab}

/-- A slab in hand is nowhere else. -/
theorem nowhere_else (h : Ledger F id v (slab :: hand) advised fromFree) :
    v.pool.freeSlabs.count slab = 0 ∧ v.pool.classSlabs.count slab = 0 ∧
      hand.count slab = 0 ∧ F.elsewhere slab = 0 := by
  have honce := h.once slab
  rw [count_cons_self] at honce
  split_ifs at honce <;> omega

section

variable (h : Ledger F id v hand advised fromFree)

include h

theorem moved {v' : PoolView} {hand' : List Slab}
    {fromFree' : ℕ} (hsame : v'.slabs.SameSlabs v.slabs)
    (hcount : ∀ b, v'.pool.held.count b + hand'.count b = v.pool.held.count b + hand.count b)
    (hcounted : v'.pool.currSlabAllocSize + slabBytes fromFree'
      = slabBytes (v'.pool.classSlabs.length + hand'.length))
    (hcur : v'.pool.curSlabsAdvised = v.pool.curSlabsAdvised) (hsound : v'.pool.Sound) :
    Ledger F id v' hand' advised fromFree' := by
  have hlength := length_add_eq_of_count hcount
  simp only [MemoryPool.held, count_append, length_append] at hcount hlength
  obtain ⟨hnext, hfree, hadvised, hsize, hheader⟩ := hsame
  refine ⟨?_, ?_, ?_, hcounted, ?_, hsound, ?_, ?_⟩
  · intro b
    have honce := h.once b
    have hb := hcount b
    rw [hnext, hfree, hadvised]
    omega
  · intro b hne
    have hb := hcount b
    exact (hheader b).trans (h.owned b (by omega))
  · rw [hsize, h.size, hlength]
  · rw [hcur, hadvised]
    exact h.curAdvised
  · intro b hb
    exact (hheader b).trans (h.owner b hb)
  · intro q hq
    exact (congrFun hsize _).trans (h.sizes q hq)

/-- Nothing moves. -/
theorem congr (hsame : a.SameSlabs v.slabs)
    (hac : p.ac = v.pool.ac) (hfree : p.freeSlabs = v.pool.freeSlabs)
    (hcurr : p.currSlabAllocSize = v.pool.currSlabAllocSize)
    (hcur : p.curSlabsAdvised = v.pool.curSlabsAdvised) :
    Ledger F id ⟨a, p⟩ hand advised fromFree := by
  have hclass := MemoryPool.classSlabs_congr hac
  refine h.moved hsame (fun b => ?_) ?_ hcur (h.sound.congr hac)
  · simp only [MemoryPool.held, hclass, hfree]
  · dsimp only
    rw [hcurr, hclass]
    exact h.counted

/-! ### The ways of a slab -/

theorem setClass {cid : ℕ} {c c' : PoolClass}
    {hand' : List Slab} (hc : v.pool.ac[cid]? = some c)
    (hmove : ∀ b, c'.slabs.count b + hand'.count b = c.slabs.count b + hand.count b)
    (hsound : c'.Sound v.pool.ac.length) :
    Ledger F id (v.setClass cid c') hand' advised fromFree := by
  have hcount : ∀ b, (v.setClass cid c').pool.classSlabs.count b + hand'.count b
      = v.pool.classSlabs.count b + hand.count b := by
    intro b
    have hset := count_flatMap_set (f := PoolClass.slabs) hc c' b
    have hb := hmove b
    unfold MemoryPool.classSlabs
    change ((v.pool.ac.set cid c').flatMap PoolClass.slabs).count b + _ = _
    omega
  refine h.moved ⟨rfl, rfl, rfl, rfl, fun _ => rfl⟩ (fun b => ?_) ?_ rfl ?_
  · simp only [MemoryPool.held, count_append, Nat.add_assoc, hcount]
    rfl
  · rw [length_add_eq_of_count hcount]
    exact h.counted
  · intro d hd
    change d ∈ v.pool.ac.set cid c' at hd
    change d.Sound (v.pool.ac.set cid c').length
    rw [length_set]
    rcases mem_or_eq_of_mem_set hd with hmem | rfl
    · exact h.sound d hmem
    · exact hsound

omit h in
theorem keep (h : Ledger F id v (slab :: hand) advised fromFree) (hsame : a.SameSlabs v.slabs)
    (hac : p.ac = v.pool.ac) (hpush : p.freeSlabs = v.pool.freeSlabs ++ [slab])
    (hcurr : p.currSlabAllocSize = v.pool.currSlabAllocSize - kSlabSize)
    (hcur : p.curSlabsAdvised = v.pool.curSlabsAdvised) :
    Ledger F id ⟨a, p⟩ hand advised fromFree := by
  have hclass := MemoryPool.classSlabs_congr hac
  refine h.moved hsame (fun b => ?_) ?_ hcur (h.sound.congr hac)
  · simp only [MemoryPool.held, hpush, hclass, count_append, count_cons_eq_add slab hand]
    omega
  · have hcounted := h.counted
    rw [length_cons, ← Nat.add_assoc, slabBytes_succ] at hcounted
    dsimp only
    rw [hclass, hcurr]
    grind

theorem takeFree {fromFree' : ℕ}
    (hlast : v.pool.freeSlabs.getLast? = some slab)
    (hac : p.ac = v.pool.ac) (hpop : p.freeSlabs = v.pool.freeSlabs.dropLast)
    (hcurr : p.currSlabAllocSize + slabBytes fromFree'
      = v.pool.currSlabAllocSize + slabBytes fromFree + kSlabSize)
    (hcur : p.curSlabsAdvised = v.pool.curSlabsAdvised) :
    Ledger F id ⟨v.slabs, p⟩ (slab :: hand) advised fromFree' := by
  have hclass := MemoryPool.classSlabs_congr hac
  have happend : v.pool.freeSlabs = p.freeSlabs ++ [slab] := by
    rw [hpop]
    exact (dropLast_append_getLast? slab hlast).symm
  refine h.moved (.refl _) (fun b => ?_) ?_ hcur (h.sound.congr hac)
  · simp only [MemoryPool.held, happend, hclass, count_append, count_cons_eq_add slab hand]
    omega
  · have hcounted := h.counted
    dsimp only
    rw [hclass, length_cons, ← Nat.add_assoc, slabBytes_succ, hcurr]
    grind

/-- A slab that no pool has comes in hand: `a` is the slab allocator that has just let go of it. -/
theorem grant
    (hcount : ∀ b, a.freeSlabs.count b + a.advisedSlabs.count b + [slab].count b
        + (if b < v.slabs.nextSlabAllocation then 1 else 0)
      = v.slabs.freeSlabs.count b + v.slabs.advisedSlabs.count b
        + (if b < a.nextSlabAllocation then 1 else 0))
    (hheader : a.header = v.slabs.header) (hsize : a.memoryPoolSize = v.slabs.memoryPoolSize)
    (hac : p.ac = v.pool.ac) (hfree : p.freeSlabs = v.pool.freeSlabs)
    (hcurr : p.currSlabAllocSize = v.pool.currSlabAllocSize + kSlabSize)
    (hcur : p.curSlabsAdvised + F.advised = ofNat a.advisedSlabs.length) :
    Ledger F id ⟨a.grant id slab, p⟩ (slab :: hand) advised fromFree := by
  have hclass := MemoryPool.classSlabs_congr hac
  -- nobody had the slab
  have hnew : F.elsewhere slab = 0 := by
    have honce := h.once slab
    have hslab := hcount slab
    rw [count_singleton_self] at hslab
    split_ifs at honce hslab <;> omega
  have hother : ∀ b, b ≠ slab →
      ((a.grant id slab).header b).poolId = (v.slabs.header b).poolId := by
    intro b hb
    change (update a.header slab _ b).poolId = _
    rw [update_of_ne hb, hheader]
  constructor
  · intro b
    have honce := h.once b
    have hb := hcount b
    have hcons := count_cons_eq_add slab hand b
    change a.freeSlabs.count b + a.advisedSlabs.count b + p.freeSlabs.count b
      + p.classSlabs.count b + (slab :: hand).count b + F.elsewhere b
      = if b < a.nextSlabAllocation then 1 else 0
    rw [hclass, hfree]
    omega
  · intro b hne
    by_cases hb : b = slab
    · subst hb
      change (update a.header b _ b).poolId = _
      rw [update_self]
    · rw [hother b hb]
      have hcons : (slab :: hand).count b = hand.count b := by
        rw [count_cons_of_ne (Ne.symm hb)]
      dsimp only at hne
      rw [hclass, hfree, hcons] at hne
      exact h.owned b hne
  · have heq : v.pool.freeSlabs.length + v.pool.classSlabs.length + hand.length + advised + 1
        = p.freeSlabs.length + p.classSlabs.length + (slab :: hand).length + advised := by
      rw [hclass, hfree, length_cons]
      omega
    change update a.memoryPoolSize (some id) _ (some id) = _
    rw [update_self, hsize, h.size]
    exact (slabBytes_succ _).symm.trans (congrArg slabBytes heq)
  · have hcounted := h.counted
    dsimp only
    rw [hclass, length_cons, ← Nat.add_assoc, slabBytes_succ, hcurr]
    grind
  · exact hcur
  · exact h.sound.congr hac
  · intro b hb
    have hne : b ≠ slab := fun e => hb (e ▸ hnew)
    exact (hother b hne).trans (h.owner b hb)
  · intro q hq
    change update a.memoryPoolSize (some id) _ (some q) = _
    rw [update_of_ne fun e => hq (some.inj e), hsize]
    exact h.sizes q hq

end

variable (h : Ledger F id v (slab :: hand) advised fromFree) (hac : p.ac = v.pool.ac)
  (hfree : p.freeSlabs = v.pool.freeSlabs)
  (hcurr : p.currSlabAllocSize = v.pool.currSlabAllocSize - kSlabSize)

include h hac hfree hcurr

/-- A slab goes from the hand to the slab allocator: `a` is the one that has it, among the free
slabs or the advised ones. -/
theorem release {advised' : ℕ}
    (hcount : ∀ b, a.freeSlabs.count b + a.advisedSlabs.count b
      = v.slabs.freeSlabs.count b + v.slabs.advisedSlabs.count b + [slab].count b)
    (hnext : a.nextSlabAllocation = v.slabs.nextSlabAllocation)
    (hother : ∀ b, b ≠ slab → (a.header b).poolId = (v.slabs.header b).poolId)
    (hsize : a.memoryPoolSize (some id) = slabBytes
      (v.pool.freeSlabs.length + v.pool.classSlabs.length + hand.length + advised'))
    (hsizes : ∀ q, q ≠ id → a.memoryPoolSize (some q) = v.slabs.memoryPoolSize (some q))
    (hcur : p.curSlabsAdvised + F.advised = ofNat a.advisedSlabs.length) :
    Ledger F id ⟨a, p⟩ hand advised' fromFree := by
  have hclass := MemoryPool.classSlabs_congr hac
  obtain ⟨hnotFree, hnotClass, hnotHand, hnotElse⟩ := h.nowhere_else
  constructor
  · intro b
    have honce := h.once b
    have hb := hcount b
    have hcons := count_cons_eq_add slab hand b
    dsimp only
    rw [hclass, hfree, hnext]
    omega
  · intro b hne
    dsimp only at hne
    rw [hclass, hfree] at hne
    have hb : b ≠ slab := by
      rintro rfl
      exact hne (by omega)
    refine (hother b hb).trans (h.owned b ?_)
    rw [count_cons_of_ne (Ne.symm hb)]
    exact hne
  · dsimp only
    rw [hclass, hfree]
    exact hsize
  · have hcounted := h.counted
    rw [length_cons, ← Nat.add_assoc, slabBytes_succ] at hcounted
    dsimp only
    rw [hclass, hcurr]
    grind
  · exact hcur
  · exact h.sound.congr hac
  · intro b hb
    have hne : b ≠ slab := fun e => hb (e ▸ hnotElse)
    exact (hother b hne).trans (h.owner b hb)
  · intro q hq
    exact (hsizes q hq).trans (h.sizes q hq)

/-- To the free slabs: the pool is one slab smaller. -/
theorem freeSlab
    (hcur : p.curSlabsAdvised = v.pool.curSlabsAdvised) :
    Ledger F id ⟨v.slabs.freeSlab slab, p⟩ hand advised fromFree := by
  have hpool : (v.slabs.header slab).poolId = some id := by
    apply h.owned slab
    rw [count_cons_self]
    omega
  have hsizes : (v.slabs.freeSlab slab).memoryPoolSize = update v.slabs.memoryPoolSize
      (some id) (v.slabs.memoryPoolSize (some id) - kSlabSize) := by
    rw [← hpool]
    rfl
  refine h.release hac hfree hcurr ?_ rfl ?_ ?_ ?_ ?_
  · intro b
    change (v.slabs.freeSlabs ++ [slab]).count b + v.slabs.advisedSlabs.count b = _
    rw [count_append]
    omega
  · intro b hb
    exact congrArg SlabHeader.poolId (update_of_ne hb _ _)
  · have hsize := h.size
    rw [length_cons, ← Nat.add_assoc, Nat.add_right_comm, slabBytes_succ] at hsize
    rw [hsizes, update_self, hsize]
    grind
  · intro q hq
    rw [hsizes, update_of_ne fun e => hq (some.inj e)]
  · rw [hcur]
    exact h.curAdvised

/-- To the advised slabs: the size of the pool stays as it was. -/
theorem advise
    (hcur : p.curSlabsAdvised = v.pool.curSlabsAdvised + 1) :
    Ledger F id ⟨(v.slabs.adviseSlab slab true).2, p⟩ hand (advised + 1) fromFree := by
  refine h.release hac hfree hcurr ?_ rfl ?_ ?_ (fun _ _ => rfl) ?_
  · intro b
    change v.slabs.freeSlabs.count b + (v.slabs.advisedSlabs ++ [slab]).count b = _
    rw [count_append, Nat.add_assoc]
  · intro b hb
    exact congrArg SlabHeader.poolId (update_of_ne hb _ _)
  · rw [← Nat.add_assoc, Nat.add_right_comm]
    exact h.size
  · have hadvised := h.curAdvised
    change _ = ofNat (v.slabs.advisedSlabs ++ [slab]).length
    rw [hcur, length_append, length_singleton, ofNat_add]
    change _ = _ + (1 : UInt64)
    grind

end Ledger

theorem SlabAllocator.makeNewSlab_cases (a : SlabAllocator) (id : ℕ) :
    (∃ a', a.makeNewSlab id = (none, a') ∧ a'.SameSlabs a) ∨
    (∃ (slab : Slab) (a' : SlabAllocator),
      a.makeNewSlab id = (some slab, a'.grant id slab) ∧ a'.header = a.header ∧
      a'.memoryPoolSize = a.memoryPoolSize ∧ a'.advisedSlabs = a.advisedSlabs ∧
      ∀ b, a'.freeSlabs.count b + a'.advisedSlabs.count b + [slab].count b
          + (if b < a.nextSlabAllocation then 1 else 0)
        = a.freeSlabs.count b + a.advisedSlabs.count b
          + (if b < a'.nextSlabAllocation then 1 else 0)) := by
  unfold makeNewSlab makeNewSlabImpl
  by_cases hcan : a.canAllocate = true
  · rcases hlast : a.freeSlabs.getLast? with _ | slab
    · by_cases hall : a.nextSlabAllocation = a.memory.numSlabMemory
      · left
        simp only [hcan, Bool.not_true, Bool.false_eq_true, if_false, dif_pos hall]
        exact ⟨_, rfl, rfl, rfl, rfl, rfl, fun _ => rfl⟩
      · right
        simp only [hcan, Bool.not_true, Bool.false_eq_true, if_false, dif_neg hall]
        refine ⟨_, _, rfl, rfl, rfl, rfl, ?_⟩
        intro b
        have hcarve : [a.nextSlabAllocation].count b + (if b < a.nextSlabAllocation then 1 else 0)
            = if b < a.nextSlabAllocation + 1 then 1 else 0 := by
          rw [count_singleton]
          by_cases hlt : b < a.nextSlabAllocation
          · have hne : a.nextSlabAllocation ≠ b := Nat.ne_of_gt hlt
            simp [hlt, hne, Nat.lt_succ_of_lt hlt]
          · by_cases heq : a.nextSlabAllocation = b
            · simp [← heq]
            · have hnot : ¬ b < a.nextSlabAllocation + 1 := fun hnext =>
                (Nat.lt_succ_iff_lt_or_eq.mp hnext).elim hlt fun e => heq e.symm
              simp [hlt, heq, hnot]
        dsimp only
        omega
    · right
      simp only [hcan, Bool.not_true, Bool.false_eq_true, if_false]
      refine ⟨_, _, rfl, rfl, rfl, rfl, ?_⟩
      intro b
      have happend : a.freeSlabs.count b = a.freeSlabs.dropLast.count b + [slab].count b := by
        rw [← count_append, dropLast_append_getLast? slab hlast]
      dsimp only
      omega
  · left
    have hfalse : a.canAllocate = false := Bool.eq_false_iff.mpr hcan
    simp only [hfalse, Bool.not_false, if_true]
    exact ⟨_, rfl, SameSlabs.refl a⟩

/-- The slabs that a call has advised away. -/
def Response.numAdvised : Response → ℕ
  | .released .advised => 1
  | _ => 0

/-- Whether a `startSlabRelease` takes one of the pool's own free slabs. -/
def MemoryPool.takesFreeSlab (p : MemoryPool) (victim receiver : Option ℕ)
    (mode : SlabReleaseMode) : ℕ :=
  if victim = none ∧ receiver = none ∧ mode = .kResize ∧ p.freeSlabs ≠ [] then 1 else 0

/-! ## The functions of a pool -/

variable {mode : SlabReleaseMode} {hint : Option Slab} {random : ℕ} {context : SlabReleaseContext}
  {madvised : Bool} {r : Response × PoolView}

namespace PoolView

theorem getSlabLocked_ac (v : PoolView) (id : ℕ) :
    (v.getSlabLocked id).2.pool.ac = v.pool.ac := by
  rcases v with ⟨a, name, maxSize, curr, freeSlabs, cur, ac⟩
  unfold getSlabLocked
  split_ifs with hall
  · rfl
  rcases freeSlabs.getLast? with _ | slab
  · rcases a.makeNewSlab id with ⟨_ | slab, a'⟩
    · dsimp only
    · dsimp only
  · dsimp only

theorem takeSlabs_ac (v : PoolView) (id n : ℕ) (slabs : List Slab) :
    (v.takeSlabs id n slabs).2.2.pool.ac = v.pool.ac := by
  induction n generalizing v slabs with
  | zero => rfl
  | succ n ih =>
      have hac := v.getSlabLocked_ac id
      rw [takeSlabs]
      rcases hs : v.getSlabLocked id with ⟨_ | slab, v₁⟩
      · rw [hs] at hac
        exact hac
      · rw [hs] at hac
        exact (ih v₁ (slabs ++ [slab])).trans hac

theorem takeSlabs_length (v : PoolView) (id n : ℕ) (slabs : List Slab)
    (h : (v.takeSlabs id n slabs).1 = true) :
    (v.takeSlabs id n slabs).2.1.length = slabs.length + n := by
  induction n generalizing v slabs with
  | zero => rfl
  | succ n ih =>
      rw [takeSlabs] at h ⊢
      rcases hs : v.getSlabLocked id with ⟨_ | slab, v₁⟩
      · rw [hs] at h
        exact absurd h Bool.false_ne_true
      · rw [hs] at h
        have hlength := ih v₁ (slabs ++ [slab]) h
        rw [length_append, length_singleton] at hlength
        dsimp only
        omega

/-- As many classes as slabs are asked for, -/
theorem length_classesToProvision (slabsDistribution : List ℕ) (k : ℕ) :
    ((slabsDistribution.zipIdx k).flatMap fun d => replicate d.1 d.2).length
      = slabsDistribution.sum := by
  induction slabsDistribution generalizing k with
  | nil => rfl
  | cons d slabsDistribution ih =>
      rw [zipIdx_cons, flatMap_cons, length_append, length_replicate, ih,
        sum_cons]

/-- and each of them is one of the pool. -/
theorem lt_of_mem_classesToProvision {slabsDistribution : List ℕ} {cid : ℕ}
    (h : cid ∈ slabsDistribution.zipIdx.flatMap fun d => replicate d.1 d.2) :
    cid < slabsDistribution.length := by
  obtain ⟨⟨n, i⟩, hmem, hcid⟩ := mem_flatMap.mp h
  have hi := snd_lt_of_mem_zipIdx hmem
  rw [eq_of_mem_replicate hcid]
  simpa using hi

/-! A call advises a slab only if it releases one with `kAdvise` and `madvise` succeeds. -/

section NumAdvised

variable {v : PoolView} {id cid : ℕ}

theorem numAdvised_releaseSlab (v : PoolView) (h : ¬(context.mode = .kAdvise ∧ madvised = true)) :
    (v.releaseSlab context madvised).1.numAdvised = 0 := by
  unfold releaseSlab
  rcases hmode : context.mode with _ | _ | _
  · rfl
  · dsimp only
    rcases context.receiver with _ | receiver
    · rfl
    · dsimp only
      rcases v.pool.ac[receiver]? with _ | c
      · rfl
      · rfl
  · rcases madvised with _ | _
    · rfl
    · exact absurd ⟨hmode, rfl⟩ h

theorem numAdvised_startSlabReleaseFrom {c : PoolClass} {receiver : Option ℕ}
    (h : ¬(mode = .kAdvise ∧ madvised = true))
    (hr : v.startSlabReleaseFrom id cid c receiver mode hint random madvised = some r) :
    r.1.numAdvised = 0 := by
  unfold startSlabReleaseFrom at hr
  dsimp only at hr
  split_ifs at hr
  · exact some.inj hr ▸ rfl
  · exact some.inj hr ▸ rfl
  split at hr
  · exact some.inj hr ▸ rfl
  · exact some.inj hr ▸ numAdvised_releaseSlab _ h
  · exact some.inj hr ▸ rfl

theorem numAdvised_startSlabRelease {victim receiver : Option ℕ}
    (h : ¬(mode = .kAdvise ∧ madvised = true))
    (hr : v.startSlabRelease id victim receiver mode hint random madvised = some r) :
    r.1.numAdvised = 0 := by
  unfold startSlabRelease at hr
  split at hr
  · exact some.inj hr ▸ rfl
  rcases victim with _ | cid
  · dsimp only at hr
    split at hr
    · exact some.inj hr ▸ rfl
    split at hr
    · exact some.inj hr ▸ rfl
    · exact some.inj hr ▸ rfl
  · dsimp only at hr
    split at hr
    · exact some.inj hr ▸ rfl
    · exact numAdvised_startSlabReleaseFrom h hr

theorem numAdvised_prune {shouldAbort : Bool}
    (h : ∀ {c context position}, v.pool.ac[cid]? = some c → c.starting = some (context, position) →
      ¬(context.mode = .kAdvise ∧ madvised = true))
    (hr : v.prune cid shouldAbort madvised = some r) : r.1.numAdvised = 0 := by
  unfold prune at hr
  rcases hc : v.pool.ac[cid]? with _ | c
  · simp [hc] at hr
  rcases hs : c.starting with _ | ⟨context, position⟩
  · simp [hc, hs] at hr
  simp only [hc, hs] at hr
  split at hr
  · exact some.inj hr ▸ rfl
  split at hr
  · exact some.inj hr ▸ rfl
  · exact some.inj hr ▸ rfl
  · exact some.inj hr ▸ numAdvised_releaseSlab _ (h hc hs)

theorem numAdvised_completeSlabRelease (h : ¬(context.mode = .kAdvise ∧ madvised = true))
    (hr : v.completeSlabRelease cid context madvised = some r) : r.1.numAdvised = 0 := by
  unfold completeSlabRelease at hr
  split at hr
  · simp at hr
  simp only [ite_none_right_eq_some] at hr
  obtain ⟨-, hr⟩ := hr
  split at hr
  · simp at hr
  · exact some.inj hr ▸ rfl
  · exact some.inj hr ▸ numAdvised_releaseSlab _ h

end NumAdvised

end PoolView

theorem PoolClass.count_erase {contexts : List SlabReleaseContext}
    (h : context ∈ contexts) (b : Slab) :
    (contexts.map fun context => context.slab).count b
      = [context.slab].count b
        + ((contexts.erase context).map fun context => context.slab).count b := by
  have hperm := (perm_cons_erase h).map fun context : SlabReleaseContext => context.slab
  rw [hperm.count_eq b, map_cons, count_cons_eq_add]

namespace Ledger

variable {F : Frame} {id : ℕ} {v : PoolView} {hand : List Slab} {advised fromFree : ℕ}
  {slab : Slab} {cid : ℕ} {c : PoolClass}

theorem getSlabLocked (h : Ledger F id v hand advised fromFree) :
    Ledger F id (v.getSlabLocked id).2 ((v.getSlabLocked id).1.toList ++ hand) advised
      fromFree := by
  unfold PoolView.getSlabLocked
  split_ifs with hall
  · exact h
  rcases hlast : v.pool.freeSlabs.getLast? with _ | slab
  · rcases v.slabs.makeNewSlab_cases id with ⟨a, hnone, hsame⟩ |
      ⟨slab, a, hsome, hheader, hsize, hadvised, hcount⟩
    · simp only [hnone]
      refine h.congr hsame rfl rfl ?_ rfl
      dsimp only
      grind
    · simp only [hsome]
      refine h.grant hcount hheader hsize rfl rfl rfl ?_
      rw [hadvised]
      exact h.curAdvised
  · refine h.takeFree hlast rfl rfl ?_ rfl
    dsimp only
    grind

/-- A class changes, and its slabs do not. -/
theorem setCls (h : Ledger F id v hand advised fromFree) (hc : v.pool.ac[cid]? = some c)
    {cls : AllocationClass.Class} {hand' : List Slab}
    (hmove : ∀ b, cls.listed b + hand'.count b = c.cls.listed b + hand.count b) :
    Ledger F id (v.setClass cid { c with cls }) hand' advised fromFree := by
  have hsound := h.sound c (mem_of_getElem? hc)
  refine h.setClass hc ?_ ⟨hsound.starting, hsound.contexts⟩
  intro b
  have hb := hmove b
  rw [PoolClass.count_slabs, PoolClass.count_slabs]
  dsimp only
  omega

theorem addSlab (h : Ledger F id v (slab :: hand) advised fromFree)
    (hc : v.pool.ac[cid]? = some c) :
    Ledger F id (v.addSlab cid c slab) hand advised fromFree := by
  apply h.setCls hc
  intro b
  have hcons := count_cons_eq_add slab hand b
  rw [Class.addSlabLocked_listed]
  change c.cls.listed b + _ + _ = _
  omega

theorem allocateFrom (h : Ledger F id v hand advised fromFree) (hc : v.pool.ac[cid]? = some c) :
    Ledger F id (v.allocateFrom cid c).2 hand advised fromFree := by
  apply h.setCls hc
  intro b
  rw [(Class.allocate_listed b).1]
  rfl

theorem addSlabAndAllocate (h : Ledger F id v (slab :: hand) advised fromFree)
    (hc : v.pool.ac[cid]? = some c) :
    Ledger F id (v.addSlabAndAllocate cid c slab).2 hand advised fromFree := by
  apply h.setCls hc
  intro b
  have hcons := count_cons_eq_add slab hand b
  rw [(Class.allocateLocked_listed b).1, Class.addSlabLocked_listed]
  change c.cls.listed b + _ + _ = _
  omega

variable (h : Ledger F id v [] advised fromFree)

include h

theorem allocateLocked :
    Ledger F id (v.allocateLocked id cid).2 [] advised fromFree := by
  unfold PoolView.allocateLocked
  rcases hc : v.pool.ac[cid]? with _ | c
  · exact h
  dsimp only
  have hcid : cid < v.pool.ac.length := (List.getElem?_eq_some_iff.mp hc).1
  have halloc := h.allocateFrom hc
  have hlength : (v.allocateFrom cid c).2.pool.ac.length = v.pool.ac.length := length_set
  rcases hr : v.allocateFrom cid c with ⟨_ | memory, v₁⟩
  · rw [hr] at halloc hlength
    dsimp only at halloc hlength ⊢
    have hslab := halloc.getSlabLocked
    have hac := v₁.getSlabLocked_ac id
    rcases hs : v₁.getSlabLocked id with ⟨_ | slab, v₂⟩
    · rw [hs] at hslab
      exact hslab
    · rw [hs] at hslab hac
      dsimp only at hslab hac ⊢
      rcases hc' : v₂.pool.ac[cid]? with _ | c'
      · -- the pool has the class all the time
        rw [List.getElem?_eq_none_iff, hac, hlength] at hc'
        omega
      · exact hslab.addSlabAndAllocate hc'
  · rw [hr] at halloc
    exact halloc

theorem allocate (size : ℕ) :
    Ledger F id (v.allocate id size).2 [] advised fromFree := by
  unfold PoolView.allocate
  rcases v.pool.getAllocationClassId size with e | cid
  · exact h
  dsimp only
  rcases hc : v.pool.ac[cid]? with _ | c
  · exact h
  dsimp only
  have halloc := h.allocateFrom hc
  rcases hr : v.allocateFrom cid c with ⟨_ | memory, v₁⟩
  · rw [hr] at halloc
    dsimp only
    split_ifs
    · exact halloc
    · exact halloc.allocateLocked
  · rw [hr] at halloc
    exact halloc

theorem free (memory : Alloc) :
    Ledger F id (v.free memory).2 [] advised fromFree := by
  unfold PoolView.free
  rcases (v.slabs.header memory.1).classId with _ | cid
  · exact h
  dsimp only
  rcases hc : v.pool.ac[cid]? with _ | c
  · exact h
  dsimp only
  rcases hfree : (c.load v.slabs).free c.cfg memory with e | cls
  · exact h
  · apply h.setCls hc
    intro b
    rw [(Class.free_listed hfree b).1]
    rfl

/-! ### Provisioning -/

omit h in
theorem perm (h : Ledger F id v hand advised fromFree) {hand' : List Slab}
    (hperm : hand'.Perm hand) : Ledger F id v hand' advised fromFree := by
  constructor
  · intro b
    rw [hperm.count_eq b]
    exact h.once b
  · intro b hb
    rw [hperm.count_eq b] at hb
    exact h.owned b hb
  · rw [hperm.length_eq]
    exact h.size
  · rw [hperm.length_eq]
    exact h.counted
  · exact h.curAdvised
  · exact h.sound
  · exact h.owner
  · exact h.sizes

omit h in
theorem takeSlabs (n : ℕ) (h : Ledger F id v hand advised fromFree) :
    Ledger F id (v.takeSlabs id n hand).2.2 (v.takeSlabs id n hand).2.1 advised fromFree := by
  induction n generalizing v hand with
  | zero => exact h
  | succ n ih =>
      have hslab := h.getSlabLocked
      rw [PoolView.takeSlabs]
      rcases hs : v.getSlabLocked id with ⟨_ | slab, v₁⟩
      · rw [hs] at hslab
        exact hslab
      · rw [hs] at hslab
        exact ih (hslab.perm (perm_append_singleton slab hand))

omit h in
theorem freeAllSlabs (slabs : List Slab) (h : Ledger F id v slabs advised fromFree) :
    Ledger F id (v.freeAllSlabs slabs) [] advised fromFree := by
  unfold PoolView.freeAllSlabs
  induction slabs generalizing v with
  | nil => exact h
  | cons slab slabs ih => exact ih (h.freeSlab rfl rfl rfl rfl)

omit h in
/-- Every slab goes to a class. -/
theorem addSlabs (cids : List ℕ) (slabs : List Slab) (h : Ledger F id v slabs advised fromFree)
    (hlength : slabs.length ≤ cids.length) (hcids : ∀ cid ∈ cids, cid < v.pool.ac.length) :
    Ledger F id (v.addSlabs cids slabs) [] advised fromFree := by
  induction cids generalizing v slabs with
  | nil =>
      have hnil : slabs = [] := length_eq_zero_iff.mp (Nat.le_zero.mp hlength)
      subst hnil
      exact h
  | cons cid cids ih =>
      rcases slabs with _ | ⟨slab, slabs⟩
      · exact h
      have hcid := hcids cid mem_cons_self
      unfold PoolView.addSlabs
      rcases hc : v.pool.ac[cid]? with _ | c
      · rw [List.getElem?_eq_none_iff] at hc
        omega
      · refine ih slabs (h.addSlab hc) (Nat.le_of_succ_le_succ hlength) ?_
        intro cid' hmem
        have hsame : (v.addSlab cid c slab).pool.ac.length = v.pool.ac.length := length_set
        rw [hsame]
        exact hcids cid' (mem_cons_of_mem cid hmem)

theorem provision {slabsDistribution : List UInt32} {r : Response × PoolView}
    (hr : v.provision id slabsDistribution = some r) : Ledger F id r.2 [] advised fromFree := by
  unfold PoolView.provision at hr
  generalize slabsDistribution.map UInt32.toNat = counts at hr
  dsimp only at hr
  split_ifs at hr with hne
  · exact some.inj hr ▸ h
  have htake := h.takeSlabs (counts.sum % 2 ^ 32)
  have hlength := v.takeSlabs_length id (counts.sum % 2 ^ 32) []
  have hac := v.takeSlabs_ac id (counts.sum % 2 ^ 32) []
  rcases hs : v.takeSlabs id (counts.sum % 2 ^ 32) [] with ⟨_ | _, slabs, v₁⟩
  · rw [hs] at htake hr
    exact some.inj hr ▸ htake.freeAllSlabs slabs
  · rw [hs] at htake hlength hac hr
    obtain ⟨-, hr⟩ := ite_none_left_eq_some.mp hr
    refine some.inj hr ▸ htake.addSlabs _ slabs ?_ ?_
    · have hcids := PoolView.length_classesToProvision counts 0
      rw [hlength rfl, hcids, length_nil, Nat.zero_add]
      exact Nat.mod_le _ _
    · intro cid hmem
      have hlt := PoolView.lt_of_mem_classesToProvision hmem
      rw [hac]
      omega

/-! ### Releasing a slab -/

omit h in
/-- Wherever `releaseSlab` puts it, the slab is out of the hand. -/
theorem releaseSlab (context : SlabReleaseContext)
    (h : Ledger F id v (context.slab :: hand) advised fromFree)
    (hreceiver : context.ReceiverIn v.pool.ac.length) (madvised : Bool) :
    Ledger F id (v.releaseSlab context madvised).2 hand
      (advised + (v.releaseSlab context madvised).1.numAdvised) fromFree := by
  unfold PoolView.releaseSlab
  rcases hmode : context.mode with _ | _ | _
  · exact h.freeSlab rfl rfl rfl rfl
  · dsimp only
    rcases hr : context.receiver with _ | receiver
    · exact h.keep (SlabAllocator.SameSlabs.refl _) rfl rfl rfl rfl
    · have hlt := hreceiver receiver hr
      dsimp only
      rcases hc : v.pool.ac[receiver]? with _ | c
      · rw [List.getElem?_eq_none_iff] at hc
        omega
      · exact h.addSlab hc
  · rcases madvised with _ | _
    · refine h.keep ⟨rfl, rfl, rfl, rfl, ?_⟩ rfl rfl rfl rfl
      intro b
      change (update v.slabs.header context.slab _ b).poolId = _
      by_cases hb : b = context.slab
      · subst hb
        rw [update_self]
      · rw [update_of_ne hb]
    · exact h.advise rfl rfl rfl rfl

theorem startSlabReleaseFrom
    (hc : v.pool.ac[cid]? = some c) {receiver : Option ℕ}
    (hreceiver : ∀ r, receiver = some r → r < v.pool.ac.length)
    (hstart : v.startSlabReleaseFrom id cid c receiver mode hint random madvised = some r) :
    Ledger F id r.2 [] (advised + r.1.numAdvised) fromFree := by
  have hsound := h.sound c (mem_of_getElem? hc)
  unfold PoolView.startSlabReleaseFrom at hstart
  dsimp only at hstart
  split_ifs at hstart with hbusy hhint hforeign
  · exact some.inj hstart ▸ h
  · exact some.inj hstart ▸ h
  have hnone : c.starting = none := not_isSome_iff_eq_none.mp hbusy
  rcases Class.beginSlabRelease_listed c.cfg (c.load v.slabs) hint random with
    ⟨e, cls, heq, hcls⟩ | ⟨slab, cls, heq, hcls⟩ | ⟨slab, cls, heq, hcls⟩
  all_goals
    rw [heq] at hstart
    have hr := some.inj hstart
    subst hr
  · apply h.setCls hc
    intro b
    rw [(hcls b).1]
    rfl
  · -- the slab is out of its class
    have hout : Ledger F id (v.setClass cid { c with cls }) (slab :: []) advised fromFree := by
      apply h.setCls hc
      intro b
      have hb := (hcls b).1
      exact hb
    refine Ledger.releaseSlab ⟨slab, mode, receiver⟩ hout ?_ madvised
    intro r hr
    change r < (v.pool.ac.set cid _).length
    rw [length_set]
    exact hreceiver r hr
  · refine h.setClass hc ?_ ⟨?_, hsound.contexts⟩
    · intro b
      have hb := (hcls b).1
      rw [PoolClass.count_slabs, PoolClass.count_slabs, hnone]
      dsimp only [map_some, map_none, toList_some, toList_none]
      change _ = (c.load v.slabs).listed b + 0 + _ + 0
      rw [count_nil]
      omega
    · intro context position hstarting
      obtain ⟨rfl, rfl⟩ := hstarting
      exact ⟨nofun, hreceiver⟩

theorem startSlabRelease {victim receiver : Option ℕ}
    (hreceiver : ∀ r, receiver = some r → r < v.pool.ac.length)
    (hstart : v.startSlabRelease id victim receiver mode hint random madvised = some r) :
    Ledger F id r.2 [] (advised + r.1.numAdvised)
      (fromFree + v.pool.takesFreeSlab victim receiver mode) := by
  unfold PoolView.startSlabRelease at hstart
  by_cases hrebalance : receiver.isSome ∧ mode ≠ .kRebalance
  · rw [if_pos hrebalance] at hstart
    have hnot : v.pool.takesFreeSlab victim receiver mode = 0 := by
      apply if_neg
      rintro ⟨-, rfl, -, -⟩
      exact absurd hrebalance.1 Bool.false_ne_true
    rw [hnot]
    exact some.inj hstart ▸ h
  rw [if_neg hrebalance] at hstart
  rcases victim with _ | cid
  · dsimp only at hstart
    by_cases hmode : mode = .kResize
    swap
    · rw [if_pos hmode] at hstart
      have hnot : v.pool.takesFreeSlab none receiver mode = 0 := if_neg fun hf => hmode hf.2.2.1
      rw [hnot]
      exact some.inj hstart ▸ h
    rw [if_neg (not_not.mpr hmode)] at hstart
    subst hmode
    have hnoReceiver : receiver = none := by
      rcases receiver with _ | receiver
      · rfl
      · exact absurd ⟨rfl, by decide⟩ hrebalance
    subst hnoReceiver
    rcases hlast : v.pool.freeSlabs.getLast? with _ | slab
    · have hnot : v.pool.takesFreeSlab none none .kResize = 0 :=
        if_neg fun hf => hf.2.2.2 (getLast?_eq_none_iff.mp hlast)
      rw [hlast] at hstart
      rw [hnot]
      exact some.inj hstart ▸ h
    · have htakes : v.pool.takesFreeSlab none none .kResize = 1 := by
        refine if_pos ⟨rfl, rfl, rfl, ?_⟩
        intro hnil
        rw [hnil] at hlast
        exact absurd hlast (by simp)
      rw [hlast] at hstart
      rw [htakes]
      -- the slab was not counted, and goes down with those that are
      have htaken : Ledger F id { v with pool := { v.pool with
          freeSlabs := v.pool.freeSlabs.dropLast } } [slab] advised (fromFree + 1) := by
        refine h.takeFree hlast rfl rfl ?_ rfl
        dsimp only
        rw [slabBytes_succ]
        grind
      have hr := some.inj hstart
      subst hr
      exact Ledger.releaseSlab ⟨slab, .kResize, none⟩ htaken nofun madvised
  · have hnot : v.pool.takesFreeSlab (some cid) receiver mode = 0 :=
      if_neg fun hf => absurd hf.1 (by simp)
    dsimp only at hstart
    rw [hnot]
    rcases hc : v.pool.ac[cid]? with _ | c
    · rw [hc] at hstart
      exact some.inj hstart ▸ h
    · rw [hc] at hstart
      exact h.startSlabReleaseFrom hc hreceiver hstart

theorem prune
    (hprune : v.prune cid false madvised = some r) :
    Ledger F id r.2 [] (advised + r.1.numAdvised) fromFree := by
  unfold PoolView.prune at hprune
  rcases hc : v.pool.ac[cid]? with _ | c
  · simp [hc] at hprune
  rcases hs : c.starting with _ | ⟨context, position⟩
  · simp [hc, hs] at hprune
  have hsound := h.sound c (mem_of_getElem? hc)
  obtain ⟨hposition, hreceiver⟩ := hsound.starting hs
  have hlisted : ∀ b, ((c.load v.slabs).prune c.cfg context.slab false position).1.listed b
      = (c.load v.slabs).listed b := Class.prune_listed context.slab false position
  have haborts : ((c.load v.slabs).prune c.cfg context.slab false position).2 ≠ some .aborted :=
    Class.prune_ne_aborted context.slab position
  simp only [hc, hs] at hprune
  rcases hp : (c.load v.slabs).prune c.cfg context.slab false position with ⟨cls, _ | next⟩
  · rw [hp] at hlisted hprune
    -- the call ends, and the slab is in hand
    have hout : ∀ hand' contexts', (∀ b, hand'.count b
        + (contexts'.map fun context : SlabReleaseContext => context.slab).count b
        = [context.slab].count b
          + (c.contexts.map fun context => context.slab).count b) →
        (∀ context' ∈ contexts', context'.ReceiverIn v.pool.ac.length) →
        Ledger F id (v.setClass cid { c with cls, starting := none, contexts := contexts' })
          hand' advised fromFree := by
      intro hand' contexts' hcount hcontexts
      refine h.setClass hc ?_ ⟨nofun, hcontexts⟩
      intro b
      have hb := hlisted b
      have hsum := hcount b
      rw [PoolClass.count_slabs, PoolClass.count_slabs, hs]
      dsimp only [map_some, map_none, toList_some, toList_none]
      rw [count_nil]
      change cls.listed b = c.cls.listed b at hb
      omega
    have hreleased : Ledger F id ((v.setClass cid { c with cls, starting := none }).releaseSlab
        context madvised).2 [] (advised + ((v.setClass cid
          { c with cls, starting := none }).releaseSlab context madvised).1.numAdvised)
        fromFree := by
      refine Ledger.releaseSlab context
        (hout [context.slab] c.contexts (fun _ => rfl) hsound.contexts) ?_ _
      intro r hr
      change r < (v.pool.ac.set cid _).length
      rw [length_set]
      exact hreceiver r hr
    rcases position with _ | _ | _ | active | _
    · exact some.inj hprune ▸ hreleased
    · exact some.inj hprune ▸ hreleased
    · exact some.inj hprune ▸ hreleased
    · rcases active with _ | ⟨first, active⟩
      · exact some.inj hprune ▸ hreleased
      · refine some.inj hprune ▸ hout [] (context :: c.contexts) ?_ ?_
        · intro b
          rw [map_cons, count_cons_eq_add, count_nil, Nat.zero_add]
        · exact forall_mem_cons.mpr ⟨hreceiver, hsound.contexts⟩
    · exact absurd rfl hposition
  · rw [hp] at hlisted hprune haborts
    have hr := some.inj hprune
    subst hr
    refine h.setClass hc ?_ ⟨?_, hsound.contexts⟩
    · intro b
      have hb := hlisted b
      rw [PoolClass.count_slabs, PoolClass.count_slabs, hs]
      exact congrArg (fun k => k + _ + _ + _) hb
    · intro context' position' hstarting
      obtain ⟨rfl, rfl⟩ := hstarting
      exact ⟨fun e => haborts (congrArg some e), hreceiver⟩

theorem abortSlabRelease
    (habort : v.abortSlabRelease cid context = some r) :
    Ledger F id r.2 [] advised fromFree := by
  unfold PoolView.abortSlabRelease at habort
  rcases hc : v.pool.ac[cid]? with _ | c
  · simp [hc] at habort
  simp only [hc, ite_none_right_eq_some] at habort
  obtain ⟨hmem, hr⟩ := habort
  have hr' := some.inj hr
  subst hr'
  have hsound := h.sound c (mem_of_getElem? hc)
  refine h.setClass hc ?_ ⟨hsound.starting, fun context' hmem' =>
    hsound.contexts context' (mem_of_mem_erase hmem')⟩
  intro b
  have herase := PoolClass.count_erase hmem b
  rw [PoolClass.count_slabs, PoolClass.count_slabs]
  dsimp only
  rw [Class.abortSlabRelease_listed]
  change c.cls.listed b + _ + _ + _ + _ = _
  omega

theorem completeSlabRelease
    (hcomplete : v.completeSlabRelease cid context madvised = some r) :
    Ledger F id r.2 [] (advised + r.1.numAdvised) fromFree := by
  unfold PoolView.completeSlabRelease at hcomplete
  rcases hc : v.pool.ac[cid]? with _ | c
  · simp [hc] at hcomplete
  simp only [hc, ite_none_right_eq_some] at hcomplete
  obtain ⟨hmem, hr⟩ := hcomplete
  rcases hcls : (c.load v.slabs).completeSlabRelease c.cfg context.slab with _ | e | cls
  · simp [hcls] at hr
  · rw [hcls] at hr
    exact some.inj hr ▸ h
  · rw [hcls] at hr
    have hr' := some.inj hr
    subst hr'
    obtain ⟨_, -, -, hforget⟩ := Class.completeSlabRelease_ok c.cfg hcls
    have hsound := h.sound c (mem_of_getElem? hc)
    have hout : Ledger F id (v.setClass cid
        { c with cls, contexts := c.contexts.erase context }) [context.slab] advised fromFree := by
      refine h.setClass hc ?_ ⟨hsound.starting, fun context' hmem' =>
        hsound.contexts context' (mem_of_mem_erase hmem')⟩
      intro b
      have herase := PoolClass.count_erase hmem b
      have hlisted : cls.listed b = c.cls.listed b := by
        rw [hforget]
        rfl
      rw [PoolClass.count_slabs, PoolClass.count_slabs]
      dsimp only
      rw [hlisted, count_nil]
      omega
    refine Ledger.releaseSlab context hout ?_ madvised
    intro r hr
    change r < (v.pool.ac.set cid _).length
    rw [length_set]
    exact hsound.contexts context hmem r hr

/-! ### Reclaiming -/

/-- An advised slab goes to the free slabs of the pool. -/
theorem reclaim {rest : List Slab}
    (hlist : v.slabs.advisedSlabs = slab :: rest) {p : MemoryPool} (hac : p.ac = v.pool.ac)
    (hpush : p.freeSlabs = v.pool.freeSlabs ++ [slab])
    (hcurr : p.currSlabAllocSize = v.pool.currSlabAllocSize)
    (hcur : p.curSlabsAdvised = v.pool.curSlabsAdvised - 1) :
    Ledger F id ⟨{ v.slabs with advisedSlabs := rest }.grant id slab, p⟩ [] advised fromFree := by
  -- the slab comes in hand as if it were counted
  obtain ⟨counted, hcounted⟩ : ∃ counted, counted = v.pool.currSlabAllocSize + kSlabSize := ⟨_, rfl⟩
  have hgranted : Ledger F id ⟨{ v.slabs with advisedSlabs := rest }.grant id slab,
      { p with currSlabAllocSize := counted, freeSlabs := v.pool.freeSlabs }⟩ [slab]
      advised fromFree := by
    refine h.grant ?_ rfl rfl hac rfl hcounted ?_
    · intro b
      have hcons := count_cons_eq_add slab rest b
      rw [hlist]
      dsimp only
      omega
    · have hadvised := h.curAdvised
      rw [hlist, length_cons, ofNat_add] at hadvised
      change _ = _ + (1 : UInt64) at hadvised
      dsimp only
      rw [hcur]
      grind
  refine hgranted.keep (SlabAllocator.SameSlabs.refl _) rfl hpush ?_ rfl
  dsimp only
  rw [hcurr, hcounted, UInt64.add_sub_cancel]

theorem reclaimSlabsAndGrow (numSlabs : ℕ) :
    Ledger F id (v.reclaimSlabsAndGrow id numSlabs).2 [] advised fromFree := by
  induction numSlabs generalizing v with
  | zero => exact h
  | succ numSlabs ih =>
      rw [PoolView.reclaimSlabsAndGrow]
      unfold SlabAllocator.reclaimSlab
      rcases hlist : v.slabs.advisedSlabs with _ | ⟨slab, rest⟩
      · exact h
      · exact ih (h.reclaim hlist rfl rfl rfl rfl)

end Ledger

end CacheLib
