/-
`AllocationClass` (`cachelib/allocator/memory/AllocationClass.cpp`): chunks of one
size carved out of slabs, and the release of a slab while chunks of it are in use.

A chunk is in one of five representations: handed out, on the intrusive free list,
in the part of the current slab that is not carved yet, in a slab nobody has
touched, or marked in the map of a slab that is being released. `startSlabRelease`
moves chunks between them in batches: it takes the whole free list off the class,
sorts it outside the lock and puts it back piece by piece. The model has one step
per locked section, so that other calls run in between; while a
`startSlabRelease` is on its way, what it holds is a sixth place.
-/
import Mathlib.Data.Int.Notation
import Mathlib.Data.List.Perm.Basic
import Mathlib.Logic.Function.Basic
import CacheLib.Lib.Run

set_option autoImplicit false

namespace CacheLib.AllocationClass

open Transition Function List Option

/-! ## The class -/

/-- The class id, its allocation size and `Slab::kSize`, with what `checkState`
demands of them. -/
structure Config where
  classId : ℕ
  allocationSize : ℕ
  slabSize : ℕ
  allocationSize_pos : 0 < allocationSize
  allocationSize_le : allocationSize ≤ slabSize

/-- `getAllocsPerSlab` -/
def Config.allocsPerSlab (cfg : Config) : ℕ := cfg.slabSize / cfg.allocationSize

abbrev Slab := ℕ

/-- The memory of one allocation: a slab and the index in it. -/
abbrev Alloc := Slab × ℕ

/-- The allocation at a byte offset of a slab; `getAllocIdx` for its index. -/
def memoryAtOffset (cfg : Config) (slab : Slab) (offset : ℕ) : Alloc :=
  (slab, offset / cfg.allocationSize)

/-- `SlabHeader`; `none` is `kInvalidClassId`. -/
structure SlabHeader where
  classId : Option ℕ := none
  allocSize : ℕ := 0
  markedForRelease : Bool := false
  deriving DecidableEq, Repr

/-- The fields of the class, and the headers of all slabs. The bits of a slab's
entry in `slabReleaseAllocMap` say which of its allocations are freed. -/
structure Class where
  currOffset : ℕ := 0
  currSlab : Option Slab := none
  allocatedSlabs : List Slab := []
  freeSlabs : List Slab := []
  freedAllocations : List Alloc := []
  canAllocate : Bool := true
  slabReleaseAllocMap : Slab → Option (ℕ → Bool) := fun _ => none
  activeReleases : ℤ := 0
  header : Slab → SlabHeader := fun _ => {}

/-- The exceptions, one for each `throw`. -/
inductive Error where
  | noSlabForRelease
  | invalidHeaderForRelease
  | allocMapExists
  | slabInNoList
  | releaseAborted
  | freeNotInClass
  | freeNoAllocMap
  | alreadyFree
  | checkNotInClass
  | notMarkedForRelease
  | invalidContext
  | checkNoAllocMap
  | waitNoAllocMap
  | invalidHeaderForCompletion
  deriving DecidableEq, Repr

namespace Class

variable (cfg : Config) {slab : Slab} {v : List Slab} (c : Class)

def addSlabLocked (slab : Slab) : Class :=
  { c with
    canAllocate := true
    header := update c.header slab
      { c.header slab with classId := some cfg.classId, allocSize := cfg.allocationSize }
    freeSlabs := c.freeSlabs ++ [slab] }

/-- `canAllocateFromCurrentSlabLocked` -/
def canAllocateFromCurrentSlab : Bool :=
  c.currSlab.isSome && decide (c.currOffset + cfg.allocationSize ≤ cfg.slabSize)

/-- `allocateFromCurrentSlabLocked` -/
def allocateFromCurrentSlab : Option Alloc × Class :=
  (c.currSlab.map fun slab => memoryAtOffset cfg slab c.currOffset,
    { c with currOffset := c.currOffset + cfg.allocationSize })

/-- `setupCurrentSlabLocked`; only called with a free slab there. -/
def setupCurrentSlab : Class :=
  match c.freeSlabs.getLast? with
  | none => c
  | some slab =>
      { c with
        freeSlabs := c.freeSlabs.dropLast
        currSlab := some slab
        currOffset := 0
        allocatedSlabs := c.allocatedSlabs ++ [slab] }

def allocateLocked : Option Alloc × Class :=
  if c.freedAllocations.isEmpty && c.freeSlabs.isEmpty && !c.canAllocateFromCurrentSlab cfg then
    (none, { c with canAllocate := false })
  else match c.freedAllocations with
    | alloc :: rest => (some alloc, { c with freedAllocations := rest })
    | [] =>
        if c.canAllocateFromCurrentSlab cfg then c.allocateFromCurrentSlab cfg
        else c.setupCurrentSlab.allocateFromCurrentSlab cfg

def allocate : Option Alloc × Class :=
  if !c.canAllocate then (none, c) else c.allocateLocked cfg

def free (alloc : Alloc) : Except Error Class :=
  if (c.header alloc.1).classId ≠ some cfg.classId then .error .freeNotInClass
  else if (c.header alloc.1).markedForRelease then
    match c.slabReleaseAllocMap alloc.1 with
    | none => .error .freeNoAllocMap
    | some allocState =>
        if allocState alloc.2 then .error .alreadyFree
        else .ok { c with
          slabReleaseAllocMap := update c.slabReleaseAllocMap alloc.1
            (some (update allocState alloc.2 true)) }
  else
    .ok { c with freedAllocations := alloc :: c.freedAllocations, canAllocate := true }

/-! ### Starting a release -/

/-- `*it = v.back(); v.pop_back();` for the first `slab` in the vector. -/
def swapRemove (slab : Slab) (v : List Slab) : List Slab :=
  match v.getLast? with
  | none => v
  | some back => (v.replace slab back).dropLast

theorem replace_perm_cons_erase (back : Slab) (h : slab ∈ v) :
    (v.replace slab back).Perm (back :: v.erase slab) := by
  induction v with
  | nil => exact absurd h not_mem_nil
  | cons x v ih =>
      by_cases hx : x = slab
      · subst hx
        simp
      · have hmem : slab ∈ v := (mem_cons.mp h).resolve_left fun e => hx e.symm
        have hne : (slab == x) = false := by simpa using fun e : slab = x => hx e.symm
        rw [replace_cons, hne, erase_cons_tail (by simpa using hx)]
        exact ((ih hmem).cons x).trans (List.Perm.swap back x _)

/-- The vector loses one `slab`; only the order of the others changes. -/
theorem swapRemove_perm (h : slab ∈ v) :
    (swapRemove slab v).Perm (v.erase slab) := by
  rcases eq_nil_or_concat v with rfl | ⟨front, back, rfl⟩
  · exact absurd h not_mem_nil
  simp only [concat_eq_append] at h ⊢
  unfold swapRemove
  rw [getLast?_append_of_ne_nil _ (by simp), getLast?_singleton]
  by_cases hf : slab ∈ front
  · -- the last slab moves to the place of the one removed
    simp only [replace_append_left hf, dropLast_concat, erase_append_left _ hf]
    exact (replace_perm_cons_erase back hf).trans (perm_append_singleton _ _).symm
  · have hb : slab = back := by simpa [hf] using h
    subst hb
    simp [replace_append_right hf, erase_append_right _ hf]

theorem cons_swapRemove_perm (h : slab ∈ v) :
    (slab :: swapRemove slab v).Perm v :=
  ((swapRemove_perm h).cons slab).trans (perm_cons_erase h).symm

theorem swapRemove_count (h : slab ∈ v) (b : Slab) :
    (swapRemove slab v).count b + [slab].count b = v.count b := by
  have hperm : ([slab] ++ swapRemove slab v).Perm v := cons_swapRemove_perm h
  rw [← hperm.count_eq b, count_append, Nat.add_comm]

/-- `getSlabForReleaseLocked`, `random` being what `rand32` returned. -/
def getSlabForRelease (random : ℕ) : Option Slab :=
  match c.freeSlabs.head? with
  | some slab => some slab
  | none => c.allocatedSlabs[random % c.allocatedSlabs.length]?

/-- How the first locked section of `startSlabRelease` ends. -/
inductive Begin where
  | failed (e : Error)
  | released (slab : Slab)
  | pruning (slab : Slab)
  deriving DecidableEq, Repr

/-- The first locked section of `startSlabRelease`. -/
def beginSlabRelease (hint : Option Slab) (random : ℕ) : Class × Begin :=
  match hint.or (c.getSlabForRelease random) with
  | none => (c, .failed .noSlabForRelease)
  | some slab =>
      let header := c.header slab
      if header.classId ≠ some cfg.classId || header.markedForRelease then
        (c, .failed .invalidHeaderForRelease)
      else if slab ∈ c.freeSlabs then
        ({ c with
            freeSlabs := swapRemove slab c.freeSlabs
            header := update c.header slab
              { header with classId := none, allocSize := 0 } }, .released slab)
      else if (c.slabReleaseAllocMap slab).isSome then
        ({ c with
            header := update c.header slab { header with markedForRelease := true } },
          .failed .allocMapExists)
      else if slab ∉ c.allocatedSlabs then
        ({ c with
            header := update c.header slab { header with markedForRelease := true }
            slabReleaseAllocMap :=
              update c.slabReleaseAllocMap slab (some fun _ => false) },
          .failed .slabInNoList)
      else if c.currSlab = some slab then
        -- what is not carved yet counts as freed
        ({ c with
            header := update c.header slab { header with markedForRelease := true }
            slabReleaseAllocMap := update c.slabReleaseAllocMap slab
              (some fun i =>
                decide (c.currOffset / cfg.allocationSize ≤ i ∧ i < cfg.allocsPerSlab))
            allocatedSlabs := swapRemove slab c.allocatedSlabs
            currSlab := none
            currOffset := 0 }, .pruning slab)
      else
        ({ c with
            header := update c.header slab { header with markedForRelease := true }
            slabReleaseAllocMap :=
              update c.slabReleaseAllocMap slab (some fun _ => false)
            allocatedSlabs := swapRemove slab c.allocatedSlabs }, .pruning slab)

def kFreeAllocsPruneLimit : ℕ := 4 * 1024

/-- `partitionFreeAllocs`: up to that many allocations from the head of
`freeAllocs` go to `inSlab` or to `notInSlab`. -/
def partitionFreeAllocs (slab : Slab) :
    ℕ → List Alloc → List Alloc → List Alloc → List Alloc × List Alloc × List Alloc
  | 0, freeAllocs, inSlab, notInSlab => (freeAllocs, inSlab, notInSlab)
  | _ + 1, [], inSlab, notInSlab => ([], inSlab, notInSlab)
  | k + 1, alloc :: freeAllocs, inSlab, notInSlab =>
      if alloc.1 = slab then partitionFreeAllocs slab k freeAllocs (alloc :: inSlab) notInSlab
      else partitionFreeAllocs slab k freeAllocs inSlab (alloc :: notInSlab)

theorem partitionFreeAllocs_spec (slab : Slab) (k : ℕ) (freeAllocs inSlab notInSlab : List Alloc)
    (hin : ∀ a ∈ inSlab, a.1 = slab) (hnot : ∀ a ∈ notInSlab, a.1 ≠ slab) :
    let p := partitionFreeAllocs slab k freeAllocs inSlab notInSlab
    (p.1 ++ (p.2.1 ++ p.2.2)).Perm (freeAllocs ++ (inSlab ++ notInSlab)) ∧
      (∀ a ∈ p.2.1, a.1 = slab) ∧ (∀ a ∈ p.2.2, a.1 ≠ slab) := by
  induction k generalizing freeAllocs inSlab notInSlab with
  | zero => exact ⟨List.Perm.refl _, hin, hnot⟩
  | succ k ih =>
      rcases freeAllocs with _ | ⟨alloc, freeAllocs⟩
      · exact ⟨List.Perm.refl _, hin, hnot⟩
      unfold partitionFreeAllocs
      by_cases ha : alloc.1 = slab
      · rw [if_pos ha]
        obtain ⟨hperm, h⟩ := ih freeAllocs (alloc :: inSlab) notInSlab
          (forall_mem_cons.mpr ⟨ha, hin⟩) hnot
        exact ⟨hperm.trans perm_middle, h⟩
      · rw [if_neg ha]
        obtain ⟨hperm, h⟩ := ih freeAllocs inSlab (alloc :: notInSlab) hin
          (forall_mem_cons.mpr ⟨ha, hnot⟩)
        refine ⟨hperm.trans ?_, h⟩
        exact (perm_middle.append_left freeAllocs).trans perm_middle

/-- How far a `startSlabRelease` that prunes has come: the next locked section
and the lists it holds. -/
inductive Pruning where
  | swap
  | batch (freeAllocs inSlab notInSlab : List Alloc)
  | collect
  | finish (activeAllocations : List Alloc)
  | aborted
  deriving DecidableEq, Repr

/-- The batch that follows: a partition of what is left, or the end of the loop. -/
def nextBatch (slab : Slab) (freeAllocs : List Alloc) : Pruning :=
  if freeAllocs.isEmpty then .collect
  else
    let p := partitionFreeAllocs slab kFreeAllocsPruneLimit freeAllocs [] []
    .batch p.1 p.2.1 p.2.2

/-- Setting the bits of allocations of one slab. -/
def markFreed (allocState : ℕ → Bool) (inSlab : List Alloc) : ℕ → Bool :=
  inSlab.foldl (fun bits alloc => update bits alloc.2 true) allocState

theorem markFreed_apply (allocState : ℕ → Bool) (inSlab : List Alloc) (i : ℕ) :
    markFreed allocState inSlab i = (allocState i || decide (i ∈ inSlab.map Prod.snd)) := by
  unfold markFreed
  induction inSlab generalizing allocState with
  | nil => simp
  | cons alloc inSlab ih =>
      rw [foldl_cons, ih]
      by_cases hi : i = alloc.2
      · subst hi
        simp
      · rw [update_of_ne hi]
        simp only [map_cons, mem_cons, hi, false_or]

/-- The slab leaves the class. -/
def forgetSlab (slab : Slab) : Class :=
  { c with
    header := update c.header slab {}
    slabReleaseAllocMap := update c.slabReleaseAllocMap slab none }

/-- The next locked section of a `startSlabRelease` that prunes `slab`, with the
unlocked work after it. `none` is the end of the call. -/
def prune (slab : Slab) (shouldAbort : Bool) : Pruning → Class × Option Pruning
  | .swap =>
      let p := partitionFreeAllocs slab kFreeAllocsPruneLimit c.freedAllocations [] []
      ({ c with freedAllocations := [] }, some (.batch p.1 p.2.1 p.2.2))
  | .batch freeAllocs inSlab notInSlab =>
      if shouldAbort then
        ({ c with
            freedAllocations := (inSlab ++ (notInSlab ++ freeAllocs)) ++ c.freedAllocations },
          some .aborted)
      else
        ({ c with
            freedAllocations := notInSlab ++ c.freedAllocations
            canAllocate := if notInSlab.isEmpty then c.canAllocate else true
            slabReleaseAllocMap := update c.slabReleaseAllocMap slab
              ((c.slabReleaseAllocMap slab).map fun bits => markFreed bits inSlab) },
          some (nextBatch slab freeAllocs))
  | .collect =>
      let allocState := (c.slabReleaseAllocMap slab).getD fun _ => false
      (c, some (.finish (((range cfg.allocsPerSlab).filter fun i => !allocState i).map
        fun i => (slab, i))))
  | .finish activeAllocations =>
      if activeAllocations.isEmpty then (c.forgetSlab slab, none)
      else ({ c with activeReleases := c.activeReleases + 1 }, none)
  | .aborted =>
      ({ c with
          header := update c.header slab
            { c.header slab with markedForRelease := false }
          slabReleaseAllocMap := update c.slabReleaseAllocMap slab none }, none)

/-! ### Ending a release -/

/-- `checkSlabInRelease`, for a context of `ctxSlab` -/
def checkSlabInRelease (ctxSlab : Slab) (alloc : Alloc) : Except Error Unit :=
  if (c.header alloc.1).classId ≠ some cfg.classId then .error .checkNotInClass
  else if !(c.header alloc.1).markedForRelease then .error .notMarkedForRelease
  else if alloc.1 ≠ ctxSlab then .error .invalidContext
  else .ok ()

def isAllocFreed (ctxSlab : Slab) (alloc : Alloc) : Except Error Bool := do
  c.checkSlabInRelease cfg ctxSlab alloc
  match c.slabReleaseAllocMap alloc.1 with
  | none => .error .checkNoAllocMap
  | some allocState => .ok (allocState alloc.2)

/-- `processAllocForRelease`: whether the callback is called, under the lock. -/
def processAllocForRelease (ctxSlab : Slab) (alloc : Alloc) : Except Error Bool := do
  return !(← c.isAllocFreed cfg ctxSlab alloc)

def abortSlabRelease (slab : Slab) : Class :=
  let freed := match c.slabReleaseAllocMap slab with
    | none => []
    | some allocState => (range cfg.allocsPerSlab).filter allocState
  { c with
    freedAllocations := freed.foldl (fun l i => (slab, i) :: l) c.freedAllocations
    canAllocate := if freed.isEmpty then c.canAllocate else true
    slabReleaseAllocMap := update c.slabReleaseAllocMap slab none
    allocatedSlabs := c.allocatedSlabs ++ [slab]
    header := update c.header slab
      { classId := some cfg.classId, allocSize := cfg.allocationSize, markedForRelease := false }
    activeReleases := c.activeReleases - 1 }

/-- `AllocationClass::completeSlabRelease` on a context that is not released yet;
`none` while it waits for the allocations of the slab. -/
def completeSlabRelease (slab : Slab) : Option (Except Error Class) :=
  if (c.header slab).classId ≠ some cfg.classId || !(c.header slab).markedForRelease then
    some (.error .invalidHeaderForCompletion)
  else match c.slabReleaseAllocMap slab with
    | none => some (.error .waitNoAllocMap)
    | some allocState =>
        if (range cfg.allocsPerSlab).all allocState then
          some (.ok { c.forgetSlab slab with activeReleases := c.activeReleases - 1 })
        else none

/-- The call does not return before every bit of the slab is set. -/
theorem completeSlabRelease_ok {c c' : Class}
    (h : c.completeSlabRelease cfg slab = some (.ok c')) :
    ∃ bits, c.slabReleaseAllocMap slab = some bits ∧ (∀ i < cfg.allocsPerSlab, bits i = true) ∧
      c' = { c.forgetSlab slab with activeReleases := c.activeReleases - 1 } := by
  unfold completeSlabRelease at h
  split at h
  · exact absurd h (by simp)
  rcases hbits : c.slabReleaseAllocMap slab with _ | bits
  · simp [hbits] at h
  · simp only [hbits, ite_none_right_eq_some, some.injEq, Except.ok.injEq,
      List.all_eq_true, List.mem_range] at h
    exact ⟨bits, rfl, h.1, h.2.symm⟩

end Class

/-! ## The class and its callers -/

/-- The class, the `startSlabRelease` on its way, the allocations handed out, and the
slabs of the contexts returned with active allocations. -/
structure System where
  cls : Class := {}
  starting : Option (Slab × Class.Pruning) := none
  held : List Alloc := []
  contexts : List Slab := []

inductive Label where
  | addSlab (slab : Slab)
  | allocate
  | allocateLocked
  | addSlabAndAllocate (slab : Slab)
  | free (alloc : Alloc)
  | startSlabRelease (hint : Option Slab) (random : ℕ)
  | prune (shouldAbort : Bool)
  | processAllocForRelease (ctxSlab : Slab) (alloc : Alloc)
  | abortSlabRelease (slab : Slab)
  | completeSlabRelease (slab : Slab)
  deriving DecidableEq, Repr

/-- The caller gets what an allocation returned. -/
def System.handOut (s : System) (out : Option Alloc × Class) : System :=
  { s with cls := out.2, held := out.1.toList ++ s.held }

/-- One locked section. Callers add slabs that no class owns, free what they
hold, and end a context once. A call that throws leaves what it has done so far. -/
def step (cfg : Config) (s : System) : Label → Option System
  | .addSlab slab =>
      if (s.cls.header slab).classId = none then
        some { s with cls := s.cls.addSlabLocked cfg slab }
      else none
  | .allocate => some (s.handOut (s.cls.allocate cfg))
  -- `allocate` reads its hint without the lock: a call that read it earlier
  | .allocateLocked => some (s.handOut (s.cls.allocateLocked cfg))
  | .addSlabAndAllocate slab =>
      if (s.cls.header slab).classId = none then
        some (s.handOut ((s.cls.addSlabLocked cfg slab).allocateLocked cfg))
      else none
  | .free alloc =>
      if alloc ∈ s.held then
        match s.cls.free cfg alloc with
        | .ok cls => some { s with cls, held := s.held.erase alloc }
        | .error _ => some s
      else none
  | .startSlabRelease hint random =>
      match s.starting with
      | some _ => none
      | none =>
          match s.cls.beginSlabRelease cfg hint random with
          | (cls, .pruning slab) => some { s with cls, starting := some (slab, .swap) }
          | (cls, _) => some { s with cls }
  | .prune shouldAbort =>
      match s.starting with
      | none => none
      | some (slab, position) =>
          match s.cls.prune cfg slab shouldAbort position with
          | (cls, some next) => some { s with cls, starting := some (slab, next) }
          | (cls, none) =>
              -- a context with active allocations is returned
              let returned := match position with
                | .finish (_ :: _) => [slab]
                | _ => []
              some { s with cls, starting := none, contexts := returned ++ s.contexts }
  | .processAllocForRelease ctxSlab alloc =>
      -- the class is only read
      match s.cls.processAllocForRelease cfg ctxSlab alloc with
      | .ok _ => some s
      | .error _ => some s
  | .abortSlabRelease slab =>
      if slab ∈ s.contexts then
        some { s with cls := s.cls.abortSlabRelease cfg slab, contexts := s.contexts.erase slab }
      else none
  | .completeSlabRelease slab =>
      if slab ∈ s.contexts then
        match s.cls.completeSlabRelease cfg slab with
        | none => none
        | some (.error _) => some s
        | some (.ok cls) => some { s with cls, contexts := s.contexts.erase slab }
      else none

/-- **What a step can do.** -/
theorem step_rule {cfg : Config} {s t : System} {l : Label} (hstep : step cfg s l = some t)
    {P : System → Prop} (same : P s)
    (addSlab : ∀ {slab}, (s.cls.header slab).classId = none →
      P { s with cls := s.cls.addSlabLocked cfg slab })
    (allocate : P (s.handOut (s.cls.allocate cfg)))
    (allocateLocked : P (s.handOut (s.cls.allocateLocked cfg)))
    (addSlabAndAllocate : ∀ {slab}, (s.cls.header slab).classId = none →
      P (s.handOut ((s.cls.addSlabLocked cfg slab).allocateLocked cfg)))
    (free : ∀ {alloc cls}, alloc ∈ s.held → s.cls.free cfg alloc = .ok cls →
      P { s with cls, held := s.held.erase alloc })
    (startSlabRelease : ∀ {hint random}, l = .startSlabRelease hint random → P t)
    (prune : ∀ {shouldAbort}, l = .prune shouldAbort → P t)
    (abortSlabRelease : ∀ {slab}, slab ∈ s.contexts →
      P { s with cls := s.cls.abortSlabRelease cfg slab, contexts := s.contexts.erase slab })
    (completeSlabRelease : ∀ {slab cls}, slab ∈ s.contexts →
      s.cls.completeSlabRelease cfg slab = some (.ok cls) →
      P { s with cls, contexts := s.contexts.erase slab }) : P t := by
  cases l with
  | addSlab slab =>
      simp only [step, ite_none_right_eq_some, some.injEq] at hstep
      exact hstep.2 ▸ addSlab hstep.1
  | allocate => exact some.inj hstep ▸ allocate
  | allocateLocked => exact some.inj hstep ▸ allocateLocked
  | addSlabAndAllocate slab =>
      simp only [step, ite_none_right_eq_some, some.injEq] at hstep
      exact hstep.2 ▸ addSlabAndAllocate hstep.1
  | free alloc =>
      simp only [step, ite_none_right_eq_some] at hstep
      obtain ⟨hmem, hstep⟩ := hstep
      split at hstep
      · rename_i cls hfree
        exact some.inj hstep ▸ free hmem hfree
      · exact some.inj hstep ▸ same
  | startSlabRelease hint random => exact startSlabRelease rfl
  | prune shouldAbort => exact prune rfl
  | processAllocForRelease ctxSlab alloc =>
      -- whether it throws or runs the callback, the class is only read
      simp only [step] at hstep
      split at hstep <;> exact some.inj hstep ▸ same
  | abortSlabRelease slab =>
      simp only [step, ite_none_right_eq_some, some.injEq] at hstep
      exact hstep.2 ▸ abortSlabRelease hstep.1
  | completeSlabRelease slab =>
      simp only [step, ite_none_right_eq_some] at hstep
      obtain ⟨hmem, hstep⟩ := hstep
      split at hstep
      · exact absurd hstep (by simp)
      · exact some.inj hstep ▸ same
      · rename_i cls hcomplete
        exact some.inj hstep ▸ completeSlabRelease hmem hcomplete

end CacheLib.AllocationClass
