/-
`MemoryPool`, `MemoryPoolManager` and `MemoryAllocator` (`cachelib/allocator/memory`): pools
that get slabs from one slab allocator and give them to their allocation classes.

A pool's classes are those of `AllocationClass`, and they read and write the headers that
the slab allocator has: `load` and `setClass` hand the headers over. A pool refers to the
slab allocator, so its functions are about a `PoolView`, the two together.

One step is one call, with one exception: a `startSlabRelease` that has to prune is cut at
its locked sections, and other calls run in between. A call that throws leaves what it has
done so far.
-/
import CacheLib.Allocator.SlabAllocator

set_option autoImplicit false

namespace CacheLib

open AllocationClass (Slab Alloc Config Class)

inductive SlabReleaseMode where
  | kResize
  | kRebalance
  | kAdvise
  deriving DecidableEq, Repr

/-- What the release of a slab was called with. A class id of `none` is `kInvalidClassId`. -/
structure SlabReleaseContext where
  slab : Slab
  mode : SlabReleaseMode
  receiver : Option ℕ
  deriving DecidableEq, Repr

structure PoolClass where
  cfg : Config
  cls : AllocationClass.Class := {}
  starting : Option (SlabReleaseContext × Class.Pruning) := none
  contexts : List SlabReleaseContext := []

structure MemoryPool where
  name : String
  maxSize : UInt64
  currSlabAllocSize : UInt64 := 0
  freeSlabs : List Slab := []
  curSlabsAdvised : UInt64 := 0
  ac : List PoolClass

/-- A pool and the slab allocator that it refers to. -/
structure PoolView where
  slabs : SlabAllocator
  pool : MemoryPool

/-- The exceptions, one for each `throw`. -/
inductive MemoryError where
  | invalidPoolId
  | duplicatePool
  | allPoolsExhausted
  | notEnoughMemory
  | tooManyClasses
  | notProvisionable
  | invalidAllocationClassSize
  | emptyAllocSizes
  | invalidSlabsDistribution
  | invalidSize
  | invalidClassId
  | notRecognized
  | noValidClass
  | corruptHeader
  | invalidHint
  | receiverWithoutRebalance
  | freeSlabsWithoutResize
  | noFreeSlabs
  | allocationClass (e : AllocationClass.Error)
  deriving DecidableEq, Repr

/-- Where `releaseSlab` has put the slab. -/
inductive Disposal where
  | freed
  | advised
  | kept
  | received
  deriving DecidableEq, Repr

/-- How a call, or a section of a `startSlabRelease`, ends. -/
inductive Response where
  | poolAdded (id : ℕ)
  | succeeded (result : Bool)
  | allocated (memory : Option Alloc)
  | freed
  | inProgress
  | context
  | released (disposal : Disposal)
  | aborted
  | reclaimed (numSlabs : ℕ)
  | threw (e : MemoryError)
  deriving DecidableEq, Repr

/-! ## A pool and its classes -/

def kSlabSize : UInt64 := UInt64.ofNat Slab.kSize

/-- The class, with the headers as the slab allocator has them. -/
def PoolClass.load (c : PoolClass) (a : SlabAllocator) : AllocationClass.Class :=
  { c.cls with header := fun slab => (a.header slab).toSlabHeader }

namespace MemoryPool

/-! The constant comes first in these two: as the last operand, it sends the evaluation of a term
with variables through all its predecessors. -/

def getPoolAdvisedSize (p : MemoryPool) : UInt64 := kSlabSize * p.curSlabsAdvised

def allSlabsAllocated (p : MemoryPool) : Bool :=
  decide (p.maxSize < kSlabSize + (p.currSlabAllocSize + p.getPoolAdvisedSize))

def acSizes (p : MemoryPool) : List ℕ := p.ac.map fun c => c.cfg.allocationSize

/-- `getAllocationClassId` of a size; `lower_bound` finds the first class that is large enough. -/
def getAllocationClassId (p : MemoryPool) (size : ℕ) : Except MemoryError ℕ :=
  if p.acSizes.getLastD 0 < size ∨ size = 0 then .error .invalidSize
  else .ok (p.acSizes.findIdx fun allocSize => decide (size ≤ allocSize))

end MemoryPool

namespace PoolView

variable (v : PoolView)

/-- The class `cid` has changed, and headers with it. -/
def setClass (cid : ℕ) (c : PoolClass) : PoolView where
  slabs := { v.slabs with
    header := fun slab => { v.slabs.header slab with toSlabHeader := c.cls.header slab } }
  pool := { v.pool with ac := v.pool.ac.set cid c }

def addSlab (cid : ℕ) (c : PoolClass) (slab : Slab) : PoolView :=
  v.setClass cid { c with cls := (c.load v.slabs).addSlabLocked c.cfg slab }

def getSlabLocked (id : ℕ) (v : PoolView) : Option Slab × PoolView :=
  if v.pool.allSlabsAllocated then (none, v)
  else
    let currSlabAllocSize := v.pool.currSlabAllocSize + kSlabSize
    match v.pool.freeSlabs.getLast? with
    | some slab =>
        (some slab, { v with pool := { v.pool with
          currSlabAllocSize, freeSlabs := v.pool.freeSlabs.dropLast } })
    | none =>
        match v.slabs.makeNewSlab id with
        | (some slab, slabs) => (some slab, ⟨slabs, { v.pool with currSlabAllocSize }⟩)
        | (none, slabs) =>
            (none, ⟨slabs, { v.pool with currSlabAllocSize := currSlabAllocSize - kSlabSize }⟩)

/-! ### Allocating and freeing -/

/-- `AllocationClass::allocate` -/
def allocateFrom (cid : ℕ) (c : PoolClass) : Option Alloc × PoolView :=
  let r := (c.load v.slabs).allocate c.cfg
  (r.1, v.setClass cid { c with cls := r.2 })

def addSlabAndAllocate (cid : ℕ) (c : PoolClass) (slab : Slab) :
    Option Alloc × PoolView :=
  let r := ((c.load v.slabs).addSlabLocked c.cfg slab).allocateLocked c.cfg
  (r.1, v.setClass cid { c with cls := r.2 })

/-- The part of `MemoryPool::allocate` under the lock. -/
def allocateLocked (id : ℕ) (v : PoolView) (cid : ℕ) : Response × PoolView :=
  match v.pool.ac[cid]? with
  | none => (.threw .invalidClassId, v)
  | some c =>
      match v.allocateFrom cid c with
      | (some memory, v) => (.allocated (some memory), v)
      | (none, v) =>
          match v.getSlabLocked id with
          | (none, v) => (.allocated none, v)
          | (some slab, v) =>
              match v.pool.ac[cid]? with
              | none => (.threw .invalidClassId, v)
              | some c =>
                  let r := v.addSlabAndAllocate cid c slab
                  (.allocated r.1, r.2)

def allocate (id : ℕ) (v : PoolView) (size : ℕ) : Response × PoolView :=
  match v.pool.getAllocationClassId size with
  | .error e => (.threw e, v)
  | .ok cid =>
      match v.pool.ac[cid]? with
      | none => (.threw .invalidClassId, v)
      | some c =>
          match v.allocateFrom cid c with
          | (some memory, v) => (.allocated (some memory), v)
          | (none, v) =>
              if v.pool.allSlabsAllocated then (.allocated none, v) else v.allocateLocked id cid

/-- `MemoryPool::free`, of memory whose header names this pool -/
def free (memory : Alloc) : Response × PoolView :=
  match (v.slabs.header memory.1).classId with
  | none => (.threw .noValidClass, v)
  | some cid =>
      match v.pool.ac[cid]? with
      | none => (.threw .corruptHeader, v)
      | some c =>
          match (c.load v.slabs).free c.cfg memory with
          | .error e => (.threw (.allocationClass e), v)
          | .ok cls => (.freed, v.setClass cid { c with cls })

/-! ### Provisioning -/

/-- The first loop of `provision`: `n` more slabs for those in `slabs`. -/
def takeSlabs (id : ℕ) : ℕ → PoolView → List Slab → Bool × List Slab × PoolView
  | 0, v, slabs => (true, slabs, v)
  | n + 1, v, slabs =>
      match v.getSlabLocked id with
      | (none, v) => (false, slabs, v)
      | (some slab, v) => takeSlabs id n v (slabs ++ [slab])

/-- `freeAllSlabs` of `provision` -/
def freeAllSlabs (slabs : List Slab) : PoolView :=
  slabs.foldl (fun v slab =>
    ⟨v.slabs.freeSlab slab,
      { v.pool with currSlabAllocSize := v.pool.currSlabAllocSize - kSlabSize }⟩) v

/-- The second loop of `provision`, for the classes in the order in which they get slabs. -/
def addSlabs : List ℕ → List Slab → PoolView → PoolView
  | cid :: cids, slab :: slabs, v =>
      match v.pool.ac[cid]? with
      | none => v
      | some c => addSlabs cids slabs (v.addSlab cid c slab)
  | _, _, v => v

/-- `provision`. The number of slabs to take is added up in 32 bits, while the second loop runs as
often as the counts say. `none` is the first slab of an empty list, in that loop. -/
def provision (id : ℕ) (v : PoolView) (slabsDistribution : List UInt32) :
    Option (Response × PoolView) :=
  let counts := slabsDistribution.map UInt32.toNat
  if counts.length ≠ v.pool.ac.length then some (.threw .invalidSlabsDistribution, v)
  else
    match v.takeSlabs id (counts.sum % 2 ^ 32) [] with
    | (false, slabs, v) => some (.succeeded false, v.freeAllSlabs slabs)
    | (true, slabs, v) =>
        let cids := counts.zipIdx.flatMap fun d => List.replicate d.1 d.2
        if slabs.length < cids.length then none else some (.succeeded true, v.addSlabs cids slabs)

/-! ### Releasing a slab -/

/-- `MemoryPool::releaseSlab`; `madvised` is whether `madvise` would succeed. -/
def releaseSlab (context : SlabReleaseContext) (madvised : Bool) :
    Response × PoolView :=
  let shrunk : MemoryPool :=
    { v.pool with currSlabAllocSize := v.pool.currSlabAllocSize - kSlabSize }
  match context.mode with
  | .kResize => (.released .freed, ⟨v.slabs.freeSlab context.slab, shrunk⟩)
  | .kAdvise =>
      match v.slabs.adviseSlab context.slab madvised with
      | (true, slabs) =>
          (.released .advised,
            ⟨slabs, { shrunk with curSlabsAdvised := v.pool.curSlabsAdvised + 1 }⟩)
      | (false, slabs) =>
          (.released .kept,
            ⟨slabs, { shrunk with freeSlabs := v.pool.freeSlabs ++ [context.slab] }⟩)
  | .kRebalance =>
      match context.receiver with
      | some receiver =>
          match v.pool.ac[receiver]? with
          -- the slab has left its class by now
          | none => (.threw .invalidClassId, v)
          | some c => (.released .received, v.addSlab receiver c context.slab)
      | none =>
          (.released .kept, { v with pool :=
            { shrunk with freeSlabs := v.pool.freeSlabs ++ [context.slab] } })

/-- The first locked section of `AllocationClass::startSlabRelease` of the class `cid`, and the rest
of the call if that is all. `none` while another call holds `startSlabReleaseLock_`. -/
def startSlabReleaseFrom (id : ℕ) (v : PoolView) (cid : ℕ) (c : PoolClass)
    (receiver : Option ℕ) (mode : SlabReleaseMode) (hint : Option Slab) (random : ℕ)
    (madvised : Bool) : Option (Response × PoolView) :=
  if c.starting.isSome then none
  else if hint.any fun slab => decide (v.slabs.nextSlabAllocation ≤ slab) then
    some (.threw .invalidHint, v)
  else
    let cls := c.load v.slabs
    let foreign := (hint.or (cls.getSlabForRelease random)).any fun slab =>
      decide ((v.slabs.header slab).poolId ≠ some id)
    if foreign then some (.threw (.allocationClass .invalidHeaderForRelease), v)
    else
      match cls.beginSlabRelease c.cfg hint random with
      | (cls, .failed e) => some (.threw (.allocationClass e), v.setClass cid { c with cls })
      | (cls, .released slab) =>
          some ((v.setClass cid { c with cls }).releaseSlab ⟨slab, mode, receiver⟩ madvised)
      | (cls, .pruning slab) =>
          some (.inProgress,
            v.setClass cid { c with cls, starting := some (⟨slab, mode, receiver⟩, .swap) })

/-- `MemoryPool::startSlabRelease`, up to the first section of the class. -/
def startSlabRelease (id : ℕ) (v : PoolView) (victim receiver : Option ℕ) (mode : SlabReleaseMode)
    (hint : Option Slab) (random : ℕ) (madvised : Bool) : Option (Response × PoolView) :=
  if receiver.isSome ∧ mode ≠ .kRebalance then some (.threw .receiverWithoutRebalance, v)
  else
    match victim with
    | none =>
        if mode ≠ .kResize then some (.threw .freeSlabsWithoutResize, v)
        else
          -- `releaseFromFreeSlabs`
          match v.pool.freeSlabs.getLast? with
          | none => some (.threw .noFreeSlabs, v)
          | some slab =>
              let v := { v with pool := { v.pool with freeSlabs := v.pool.freeSlabs.dropLast } }
              some (v.releaseSlab ⟨slab, .kResize, receiver⟩ madvised)
    | some cid =>
        match v.pool.ac[cid]? with
        | none => some (.threw .invalidClassId, v)
        | some c => v.startSlabReleaseFrom id cid c receiver mode hint random madvised

/-- The next locked section of the `startSlabRelease` on its way in the class `cid`, and the rest
of the call after the last one. -/
def prune (cid : ℕ) (shouldAbort madvised : Bool) : Option (Response × PoolView) :=
  match v.pool.ac[cid]? with
  | none => none
  | some c =>
      match c.starting with
      | none => none
      | some (context, position) =>
          match (c.load v.slabs).prune c.cfg context.slab shouldAbort position with
          | (cls, some next) =>
              some (.inProgress, v.setClass cid { c with cls, starting := some (context, next) })
          | (cls, none) =>
              match position with
              | .finish (_ :: _) =>
                  some (.context, v.setClass cid
                    { c with cls, starting := none, contexts := context :: c.contexts })
              | .aborted => some (.aborted, v.setClass cid { c with cls, starting := none })
              | _ =>
                  some ((v.setClass cid { c with cls, starting := none }).releaseSlab context
                    madvised)

def abortSlabRelease (cid : ℕ) (context : SlabReleaseContext) :
    Option (Response × PoolView) :=
  match v.pool.ac[cid]? with
  | none => none
  | some c =>
      if context ∈ c.contexts then
        some (.succeeded true, v.setClass cid
          { c with
            cls := (c.load v.slabs).abortSlabRelease c.cfg context.slab
            contexts := c.contexts.erase context })
      else none

/-- `MemoryPool::completeSlabRelease`; `none` while it waits for active allocations. -/
def completeSlabRelease (cid : ℕ) (context : SlabReleaseContext)
    (madvised : Bool) : Option (Response × PoolView) :=
  match v.pool.ac[cid]? with
  | none => none
  | some c =>
      if context ∈ c.contexts then
        match (c.load v.slabs).completeSlabRelease c.cfg context.slab with
        | none => none
        | some (.error e) => some (.threw (.allocationClass e), v)
        | some (.ok cls) =>
            let v := v.setClass cid { c with cls, contexts := c.contexts.erase context }
            some (v.releaseSlab context madvised)
      else none

def reclaimSlabsAndGrow (id : ℕ) : ℕ → PoolView → ℕ × PoolView
  | 0, v => (0, v)
  | numSlabs + 1, v =>
      match v.slabs.reclaimSlab id with
      | (none, slabs) => (0, { v with slabs })
      | (some slab, slabs) =>
          let r := reclaimSlabsAndGrow id numSlabs ⟨slabs, { v.pool with
            freeSlabs := v.pool.freeSlabs ++ [slab]
            curSlabsAdvised := v.pool.curSlabsAdvised - 1 }⟩
          (r.1 + 1, r.2)

end PoolView

/-! ## The pools -/

/-- The memory allocator with its pools, by their ids, and the class sizes of its configuration. -/
structure MemoryAllocator where
  allocSizes : List ℕ
  slabs : SlabAllocator
  pools : List MemoryPool := []

namespace MemoryAllocator

def kMaxPools : ℕ := 64

def kMaxClasses : ℕ := 2 ^ 7

variable (m : MemoryAllocator)

def getNumSlabsAdvised : UInt64 :=
  m.pools.foldl (fun slabsAdvised pool => slabsAdvised + pool.curSlabsAdvised) 0

/-- `getRemainingSizeLocked` -/
def getRemainingSize : UInt64 :=
  let totalSize := UInt64.ofNat (m.slabs.memory.getNumUsableAndAdvisedSlabs * Slab.kSize)
  totalSize - m.pools.foldl (fun sum pool => sum + pool.maxSize) 0

/-- `createAllocationClasses`, from the class `id` on -/
def createAllocationClasses (id : ℕ) : List ℕ → Except MemoryError (List PoolClass)
  | [] => .ok []
  | size :: sizes =>
      if h : size < Slab.kMinAllocSize ∨ Slab.kSize < size then .error .invalidAllocationClassSize
      else
        match createAllocationClasses (id + 1) sizes with
        | .error e => .error e
        | .ok ac =>
            .ok ({ cfg := {
                    classId := id
                    allocationSize := size
                    slabSize := Slab.kSize
                    allocationSize_pos := by
                      have hmin : 0 < Slab.kMinAllocSize := by decide
                      omega
                    allocationSize_le := by omega } } :: ac)

/-- The constructor of `MemoryPool` -/
def newPool (name : String) (poolSize : UInt64) (allocSizes : List ℕ) :
    Except MemoryError MemoryPool :=
  match createAllocationClasses 0 allocSizes with
  | .error e => .error e
  | .ok [] => .error .emptyAllocSizes
  | .ok ac => .ok { name, maxSize := poolSize, ac }

def createNewPool (name : String) (poolSize : UInt64)
    (allocSizes : List ℕ) : MemoryAllocator × Response :=
  if m.pools.any fun pool => pool.name == name then (m, .threw .duplicatePool)
  else if m.pools.length = kMaxPools then (m, .threw .allPoolsExhausted)
  else if m.getRemainingSize < poolSize then (m, .threw .notEnoughMemory)
  else
    match newPool name poolSize allocSizes with
    | .error e => (m, .threw e)
    | .ok pool => ({ m with pools := m.pools ++ [pool] }, .poolAdded m.pools.length)

def addPool (name : String) (size : UInt64) (allocSizes : List ℕ)
    (ensureProvisionable : Bool) : MemoryAllocator × Response :=
  let poolAllocSizes := if allocSizes.isEmpty then m.allocSizes else allocSizes
  if kMaxClasses < poolAllocSizes.length then (m, .threw .tooManyClasses)
  else if ensureProvisionable ∧ size.toNat < Slab.kSize * poolAllocSizes.length then
    (m, .threw .notProvisionable)
  else m.createNewPool name size poolAllocSizes

/-- A call to the pool `id`, found by `getPoolById`. -/
def onPool (id : ℕ) (call : PoolView → Option (Response × PoolView)) :
    Option (MemoryAllocator × Response) :=
  match m.pools[id]? with
  | none => some (m, .threw .invalidPoolId)
  | some pool =>
      (call ⟨m.slabs, pool⟩).map fun r =>
        ({ m with slabs := r.2.slabs, pools := m.pools.set id r.2.pool }, r.1)

/-- `resize` of the pool `id` -/
def resize (id : ℕ) (pool : MemoryPool) (size : UInt64) : MemoryAllocator :=
  { m with pools := m.pools.set id { pool with maxSize := size } }

/-- `resizePools`. The two pools may be the same one. -/
def resizePools (src dest : ℕ) (bytes : UInt64) :
    MemoryAllocator × Response :=
  match m.pools[src]?, m.pools[dest]? with
  | some srcPool, some _ =>
      if srcPool.maxSize < bytes then (m, .succeeded false)
      else
        let m := m.resize src srcPool (srcPool.maxSize - bytes)
        match m.pools[dest]? with
        | none => (m, .threw .invalidPoolId)
        | some destPool => (m.resize dest destPool (destPool.maxSize + bytes), .succeeded true)
  | _, _ => (m, .threw .invalidPoolId)

def shrinkPool (id : ℕ) (bytes : UInt64) : MemoryAllocator × Response :=
  match m.pools[id]? with
  | none => (m, .threw .invalidPoolId)
  | some pool =>
      if pool.maxSize < bytes then (m, .succeeded false)
      else (m.resize id pool (pool.maxSize - bytes), .succeeded true)

def growPool (id : ℕ) (bytes : UInt64) : MemoryAllocator × Response :=
  match m.pools[id]? with
  | none => (m, .threw .invalidPoolId)
  | some pool =>
      if m.getRemainingSize < bytes then (m, .succeeded false)
      else (m.resize id pool (pool.maxSize + bytes), .succeeded true)

/-- `MemoryAllocator::free`: the pool is the one that the header names. -/
def free (memory : Alloc) : Option (MemoryAllocator × Response) :=
  if m.slabs.nextSlabAllocation ≤ memory.1 then some (m, .threw .notRecognized)
  else
    match (m.slabs.header memory.1).poolId with
    | none => some (m, .threw .invalidPoolId)
    | some id => m.onPool id fun v => some (v.free memory)

inductive Label where
  | addPool (name : String) (size : UInt64) (allocSizes : List ℕ) (ensureProvisionable : Bool)
  | provisionPool (id : ℕ) (slabsDistribution : List UInt32)
  | resizePools (src dest : ℕ) (bytes : UInt64)
  | shrinkPool (id : ℕ) (bytes : UInt64)
  | growPool (id : ℕ) (bytes : UInt64)
  | allocate (id : ℕ) (size : ℕ)
  | free (memory : Alloc)
  | startSlabRelease (id : ℕ) (victim receiver : Option ℕ) (mode : SlabReleaseMode)
      (hint : Option Slab) (random : ℕ) (madvised : Bool)
  | prune (id cid : ℕ) (shouldAbort madvised : Bool)
  | abortSlabRelease (id cid : ℕ) (context : SlabReleaseContext)
  | completeSlabRelease (id cid : ℕ) (context : SlabReleaseContext) (madvised : Bool)
  | reclaimSlabsAndGrow (id numSlabs : ℕ)
  deriving DecidableEq, Repr

/-- One call, or one more section of a `startSlabRelease`. The sizes of a pool come in a set, in
order. -/
def call : Label → Option (MemoryAllocator × Response)
  | .addPool name size allocSizes ensureProvisionable =>
      if allocSizes.Pairwise (· < ·) then
        some (m.addPool name size allocSizes ensureProvisionable)
      else none
  | .provisionPool id slabsDistribution => m.onPool id fun v => v.provision id slabsDistribution
  | .resizePools src dest bytes => some (m.resizePools src dest bytes)
  | .shrinkPool id bytes => some (m.shrinkPool id bytes)
  | .growPool id bytes => some (m.growPool id bytes)
  | .allocate id size => m.onPool id fun v => some (v.allocate id size)
  | .free memory => m.free memory
  | .startSlabRelease id victim receiver mode hint random madvised =>
      m.onPool id fun v => v.startSlabRelease id victim receiver mode hint random madvised
  | .prune id cid shouldAbort madvised => m.onPool id fun v => v.prune cid shouldAbort madvised
  | .abortSlabRelease id cid context => m.onPool id fun v => v.abortSlabRelease cid context
  | .completeSlabRelease id cid context madvised =>
      m.onPool id fun v => v.completeSlabRelease cid context madvised
  | .reclaimSlabsAndGrow id numSlabs =>
      m.onPool id fun v =>
        let r := v.reclaimSlabsAndGrow id numSlabs
        some (.reclaimed r.1, r.2)

def step (l : Label) : Option MemoryAllocator := (m.call l).map Prod.fst

/-- A memory allocator that has just been made. -/
def init (memory : SlabMemory) (allocSizes : List ℕ) : MemoryAllocator where
  allocSizes
  slabs := { memory }

end MemoryAllocator

end CacheLib
