/-
`BlockCache` over the sparse-map index, one operation at a time: the index
(`SparseMapIndex.cpp`), the parts of `RegionManager.cpp` and `Allocator.cpp` an
operation goes through, and `insert`, `lookup`, `remove`, the reclaim of a region
and the flush of a buffer (`BlockCache.cpp`).

Each operation runs to its end before the next one starts; one that would wait for
ever is `none`. Flushes stay asynchronous: a full region is handed to a job, which is a
step of its own. A write to the device may fail, as often as `doFlushInternal` retries;
the entries of the buffer are then dropped. The eviction policy is free: any region it
tracks may be the next victim.
-/
import CacheLib.Lib.Run
import CacheLib.Navy.BlockEntry

set_option autoImplicit false

namespace CacheLib.Navy.BlockCache

open Bytes

abbrev RegionId := ℕ

variable (cfg : Config)

/-! ## `SparseMapIndex` -/

/-- `ItemRecord`, without the hit history no operation here reads. -/
structure ItemRecord where
  address : ℕ
  sizeHint : ℕ
  currentHits : ℕ := 0
  deriving DecidableEq, Repr

/-- The bucket maps: a record by bucket and subkey. -/
abbrev Index := ℕ × ℕ → Option ItemRecord

/-- `bucketMap` and `subkey`: where the index keeps a hash. Sixteen of its bits may
be used by neither. -/
def slot (hash : UInt64) : ℕ × ℕ :=
  ((hash.toNat >>> 32) &&& (cfg.numSparseMapBuckets - 1), hash.toNat &&& 0xffffffff)

/-- The slot of a key. -/
def keySlot (key : List UInt8) : ℕ × ℕ := slot cfg (cfg.hashBuffer key)

def safeInc (val : ℕ) : ℕ := if val < 255 then val + 1 else val

namespace Index

variable (index : Index) (at_ : ℕ × ℕ)

/-- What `lookup` leaves: the record has one more hit. -/
def hit : Index :=
  Function.update index at_ ((index at_).map fun record =>
    { record with currentHits := safeInc record.currentHits })

def insert (address sizeHint : ℕ) : Index :=
  Function.update index at_ (some { address := address, sizeHint := sizeHint })

def remove : Index := Function.update index at_ none

/-- Whether the record in the slot has this address. -/
def matchesAddress (address : ℕ) : Bool :=
  (index at_).any fun record => record.address == address

def removeIfMatch (address : ℕ) : Index :=
  if index.matchesAddress at_ address then index.remove at_ else index

/-- `replaceIfMatch`: the index afterwards, or `none` when the record is not there. -/
def replaceIfMatch (newAddress oldAddress : ℕ) : Option Index :=
  if index.matchesAddress at_ oldAddress then
    some (Function.update index at_ ((index at_).map fun record =>
      { record with address := newAddress, currentHits := 0 }))
  else none

end Index

/-! ## State -/

/-- The cache. The lists of clean regions and of free buffers are used at one end
only, the back of the source's vectors, which is the head here. -/
structure State where
  index : Index
  regions : RegionId → Region Memory
  device : Memory
  /-- `buffers_` -/
  buffers : List Memory
  cleanRegions : List RegionId
  cleanRegionsEmpty : Bool
  reclaimsOutstanding : ℕ
  /-- the regions the eviction policy holds -/
  tracked : RegionId → Bool
  /-- the scheduled `doFlushInternal` jobs -/
  flushJobs : List RegionId
  /-- the region each allocator of each priority fills -/
  allocators : ℕ → ℕ → Option RegionId

/-- The state the constructor leaves: every region is empty and tracked. What the
device and the buffers hold is whatever they hold. -/
def init (device : Memory) (buffers : List Memory) : State where
  index := fun _ => none
  regions := fun _ => {}
  device := device
  buffers := buffers
  cleanRegions := []
  cleanRegionsEmpty := false
  reclaimsOutstanding := 0
  tracked := fun rid => decide (rid < cfg.numRegions)
  flushJobs := []
  allocators := fun _ _ => none

variable (s : State) (rid : RegionId)

/-- `s` with another value for one region. -/
def State.setRegion (r : Region Memory) : State :=
  { s with regions := Function.update s.regions rid r }

/-- The bytes of a region on the device. -/
def onDevice (device : Memory) (rid : RegionId) : Memory :=
  fun i => device (physicalOffset cfg ⟨rid, 0⟩ + i)

/-- `RegionManager::read` on an open region: out of the buffer, or from the device. -/
def regionRead (physReadMode : Bool) :
    Option (ℕ → ℕ → Buffer) :=
  (if physReadMode then some (onDevice cfg s.device rid) else (s.regions rid).buffer).map
    fun data offset size => ⟨size, fun i => data (offset + i)⟩

/-! ## Walking through a region -/

/-- The loop of `onRegionReclaim` and of `onRegionCleanup`. The fuel is the offset itself;
it is not enough only for a descriptor that gives its entry no bytes, on which the source
would not stop either. -/
def forEachEntry {σ : Type} (buffer : Memory)
    (visit : σ → ℕ → EntryDesc → List UInt8 → List UInt8 → Option σ) :
    ℕ → ℕ → σ → Option σ
  | 0, offset, s => if offset = 0 then some s else none
  | fuel + 1, offset, s =>
      if offset = 0 then some s
      else if offset < descSize then none
      else
        let desc := EntryDesc.load buffer (offset - descSize)
        if desc.csSelf ≠ desc.computeChecksum cfg then some s
        else if offset < descSize + desc.keySize.toNat ∨ offset < desc.entrySize cfg then none
        else
          let key := read buffer (offset - descSize - desc.keySize.toNat) desc.keySize.toNat
          let value := read buffer (offset - desc.entrySize cfg) desc.valueSize.toNat
          (visit s offset desc key value).bind fun s =>
            forEachEntry buffer visit fuel (offset - desc.entrySize cfg) s

def removeItem (index : Index) (key : List UInt8) (currAddr : RelAddress) : Index :=
  index.removeIfMatch (keySlot cfg key) (encodeRelAddress cfg currAddr)

/-- `onRegionCleanup` on the region with this end of the last entry. -/
def onRegionCleanup (lastEntryEndOffset : ℕ) (buffer : Memory)
    (index : Index) : Option Index :=
  forEachEntry cfg buffer
    (fun index offset _ key _ => some (removeItem cfg index key ⟨rid, offset⟩))
    lastEntryEndOffset lastEntryEndOffset index

/-! ## Flushing a region -/

/-- `region.reset()` and the return to `cleanRegions_`, as `releaseCleanedupRegion`
and `releaseEvictedRegion` both end. -/
def releaseRegion : State :=
  { s.setRegion rid (s.regions rid).reset with
    cleanRegions := rid :: s.cleanRegions
    cleanRegionsEmpty := false }

/-- `doFlushInternal`. `written` says whether the device takes the buffer before the
retries run out. Without that the entries leave the index and the region goes back
unused. -/
def doFlushInternal (written : Bool) : Option State :=
  let region := s.regions rid
  match region.buffer with
  | none => none
  | some data =>
      if region.activeWriters ≠ 0 ∨ region.activeInMemReaders ≠ 0 then none
      else if written then
        some { s.setRegion rid region.setFlushed.detachBuffer with
          device :=
            if region.flushed then s.device
            else copy s.device (physicalOffset cfg ⟨rid, 0⟩) data cfg.regionSize
          buffers := data :: s.buffers
          tracked := Function.update s.tracked rid true }
      else
        (if region.cleanedup then some s.index
          else onRegionCleanup cfg rid region.lastEntryEndOffset data s.index).map fun index =>
            releaseRegion
              { s.setRegion rid region.setCleanedup.detachBuffer with
                index := index
                buffers := data :: s.buffers } rid

/-- `doFlush` with `async`. On a worker of the region manager, where reclaims run,
the flush is only put off when the configuration asks for it. -/
def doFlush (onWorker written : Bool) : Option State :=
  let s := s.setRegion rid (s.regions rid).setPendingFlush
  if onWorker ∧ ¬ cfg.regionManagerFlushAsync then doFlushInternal cfg s rid written
  else some { s with flushJobs := rid :: s.flushJobs }

/-! ## Allocating a slot -/

/-- `getCleanRegion`: a region with a buffer, or `none` for `OpenStatus::Retry`. -/
def getCleanRegion (addWaiter : Bool) : Option RegionId × State :=
  if cfg.cleanRegionFastPath && !addWaiter && s.cleanRegionsEmpty then (none, s)
  else
    let rest := s.cleanRegions.tail
    let plannedClean := rest.length + s.reclaimsOutstanding
    let s' := { s with
      cleanRegions := rest
      cleanRegionsEmpty := (rest.isEmpty && decide (0 < s.reclaimsOutstanding))
        || s.cleanRegionsEmpty
      reclaimsOutstanding := s.reclaimsOutstanding + (cfg.cleanRegionsPool - plannedClean) }
    match s.cleanRegions with
    | [] => (none, s')
    | rid :: _ =>
        match s.buffers with
        | [] => (none, { s' with cleanRegions := rid :: rest, cleanRegionsEmpty := false })
        | data :: buffers =>
            (some rid,
              { s'.setRegion rid ((s.regions rid).attachBuffer data) with buffers := buffers })

/-- What `Allocator::allocate` returns. -/
inductive Allocated where
  | ready (rid : RegionId) (offset : ℕ)
  | error
  | retry
  deriving DecidableEq, Repr

/-- `allocators_[priority][i]` with another region. -/
def State.setAllocator (priority i : ℕ) (rid : Option RegionId) : State :=
  { s with
    allocators := Function.update s.allocators priority
      (Function.update (s.allocators priority) i rid) }

/-- The end of `allocateWith`: a new region for the allocator. -/
def allocateFresh (priority i size : ℕ) (addWaiter : Bool) : Allocated × State :=
  match getCleanRegion cfg s addWaiter with
  | (none, s) => (.retry, s)
  | (some rid, s) =>
      let s := s.setAllocator priority i (some rid)
      let region := { s.regions rid with priority := priority }
      match region.openAndAllocate cfg.regionSize size with
      | none => (.error, s.setRegion rid region)
      | some (offset, region) => (.ready rid offset, s.setRegion rid region)

/-- `allocateWith`: out of the region the allocator fills, or of a new one. -/
def allocateWith (priority i size : ℕ) (addWaiter onWorker written : Bool) :
    Option (Allocated × State) :=
  match s.allocators priority i with
  | none => some (allocateFresh cfg s priority i size addWaiter)
  | some rid =>
      match (s.regions rid).openAndAllocate cfg.regionSize size with
      | some (offset, region) => some (.ready rid offset, s.setRegion rid region)
      | none =>
          (doFlush cfg s rid onWorker written).map fun s =>
            allocateFresh cfg (s.setAllocator priority i none) priority i size addWaiter

/-- `Allocator::allocate` -/
def allocate (size priority distKey : ℕ) (addWaiter onWorker written : Bool) :
    Option (Allocated × State) :=
  if size = 0 ∨ cfg.regionSize < size then some (.error, s)
  else
    match cfg.allocatorsPerPriority[priority]? with
    | none => none
    | some count => allocateWith cfg s priority (distKey % count) size addWaiter onWorker written

/-- `writeEntry` into an allocated slot, which lies in the buffer of its region. -/
def writeSlot (offset size : ℕ) (key value : List UInt8)
    (lastAccessTimeSecs : UInt32) : Option State :=
  (s.regions rid).buffer.bind fun data =>
    (writeEntry cfg data offset size key value lastAccessTimeSecs).map fun data =>
      s.setRegion rid { s.regions rid with buffer := some data }

def State.close (mode : OpenMode) : State :=
  s.setRegion rid ((s.regions rid).close mode)

/-! ## `insert`, `lookup` and `remove` -/

/-- `updateIndex` with `allowReplace`. -/
def updateIndex (key : List UInt8) (size : ℕ) (addr : RelAddress) : State :=
  { s with
    index := s.index.insert (keySlot cfg key)
      (encodeRelAddress cfg ⟨addr.rid, addr.offset + size⟩) (encodeSizeHint size) }

/-- `insert`. It may wait for a clean region, which it only does on a thread of
Navy's own; it never runs on a worker of the region manager. -/
def insert (key value : List UInt8) (lastAccessTimeSecs : UInt32)
    (onNavyThread : Bool) : Option (Status × State) :=
  let size := serializedSize cfg key.length value.length
  if kMaxItemSize < size then some (.rejected, s)
  else
    match allocate cfg s size 0 (cfg.hashBuffer key).toNat onNavyThread false false with
    | none => none
    | some (.error, s) => some (.rejected, s)
    | some (.retry, s) => some (.retry, s)
    | some (.ready rid offset, s) =>
        (writeSlot cfg s rid offset size key value lastAccessTimeSecs).map fun s =>
          (.ok, (updateIndex cfg s key size ⟨rid, offset⟩).close rid .write)

/-- Where the loop of `lookupInternal` ends. -/
inductive Opened where
  | notFound
  | retry
  | ready (addrEnd : RelAddress) (sizeHint : ℕ) (physReadMode : Bool)

/-- The loop of `lookupInternal`: reads during a reclaim are allowed, so it asks the
index a second time when the region is closed to it. -/
def openEntry (key : List UInt8) : ℕ → State → Option (Opened × State)
  | retryIndex, s =>
    match s.index (keySlot cfg key) with
    | none => some (.notFound, s)
    | some record =>
        let s := { s with index := s.index.hit (keySlot cfg key) }
        let addrEnd := decodeRelAddress cfg record.address
        if addrEnd.rid < cfg.numRegions then
          match (s.regions addrEnd.rid).openForRead with
          | some (physReadMode, region) =>
              some (.ready addrEnd record.sizeHint physReadMode, s.setRegion addrEnd.rid region)
          | none =>
              match retryIndex with
              | 0 => some (.retry, s)
              | retryIndex + 1 => openEntry key retryIndex s
        else none

/-- `lookup`. A failed checksum is read a second time, and takes the entry out of the
index when it fails again. -/
def lookup (key : List UInt8) : Option (LookupData × State) :=
  match openEntry cfg key 1 s with
  | none => none
  | some (.notFound, s) => some ({ status := .notFound }, s)
  | some (.retry, s) => some ({ status := .retry }, s)
  | some (.ready addrEnd sizeHint physReadMode, s) =>
      (regionRead cfg s addrEnd.rid physReadMode).bind fun reader =>
        (readEntry cfg reader addrEnd.offset (decodeSizeHint sizeHint) key).map fun ld =>
          let s := if ld.status = .checksumError
            then { s with index := s.index.remove (keySlot cfg key) } else s
          (ld, s.close addrEnd.rid (.read physReadMode))

def removeImpl (key : List UInt8) : Status × State :=
  (if (s.index (keySlot cfg key)).isSome then .ok else .notFound,
    { s with index := s.index.remove (keySlot cfg key) })

def remove (key : List UInt8) : Option (Status × State) :=
  if cfg.itemDestructorEnabled && cfg.destructorCb || cfg.preciseRemove then
    (lookup cfg s key).map fun (ld, s) =>
      match ld.status with
      | .ok => removeImpl cfg s key
      | .retry => (.retry, s)
      | .notFound => if cfg.preciseRemove then (.notFound, s) else removeImpl cfg s key
      | .checksumError => (.checksumError, s)
      | _ => (.badState, s)
  else some (removeImpl cfg s key)

/-! ## Reclaiming a region -/

/-- What the owner's callbacks make of an item whose region is reclaimed:
`checkExpired_` says it is expired, the reinsertion policy (where there is one)
refuses or takes it, or one of the two throws. -/
inductive Decision where
  | expired
  | rejected
  | accepted
  | threw
  deriving DecidableEq, Repr

/-- What happens to one item: the decision, and whether the device takes the buffer
that is flushed, if one is, to make room for it. -/
structure Choice where
  decision : Decision
  written : Bool := true
  deriving DecidableEq, Repr

/-- The local `removeItem` of `reinsertOrRemoveItem`. -/
def State.removeItem (key : List UInt8) (currAddr : RelAddress) : State :=
  { s with index := BlockCache.removeItem cfg s.index key currAddr }

/-- The end of `reinsertOrRemoveItem`, for an item that is to be kept: it is written
to a new slot and its record, if it still is the item's, is moved there. -/
def reinsert (key value : List UInt8) (currAddr : RelAddress)
    (currentHits : ℕ) (written : Bool) : Option State :=
  let size := serializedSize cfg key.length value.length
  let numPriorities := cfg.allocatorsPerPriority.length % 2 ^ 16
  let priority := if numPriorities = 0 then 0 else min currentHits (numPriorities - 1)
  match allocate cfg s size priority (cfg.hashBuffer key).toNat false true written with
  | none => none
  | some (.error, s) => some (s.removeItem cfg key currAddr)
  | some (.retry, s) => some (s.removeItem cfg key currAddr)
  | some (.ready rid offset, s) =>
      (writeSlot cfg s rid offset size key value 0).map fun s =>
        let s := match s.index.replaceIfMatch (keySlot cfg key)
            (encodeRelAddress cfg ⟨rid, offset + size⟩) (encodeRelAddress cfg currAddr) with
          | some index => { s with index := index }
          | none => s.removeItem cfg key currAddr
        s.close rid .write

def reinsertOrRemoveItem (choice : Choice) (desc : EntryDesc)
    (key value : List UInt8) (currAddr : RelAddress) : Option State :=
  match s.index (keySlot cfg key) with
  | none => some s
  | some lr =>
      if decodeRelAddress cfg lr.address ≠ currAddr then some s
      else
        match choice.decision with
        -- The exception is caught and the item reported as corrupted. Its record stays.
        | .threw => some s
        | .expired => some (s.removeItem cfg key currAddr)
        | .rejected => some (s.removeItem cfg key currAddr)
        | .accepted =>
            if cfg.checksumData ∧ desc.cs ≠ cfg.checksum value then
              some (s.removeItem cfg key currAddr)
            else reinsert cfg s key value currAddr lr.currentHits choice.written

/-- `onRegionReclaim`. An item is named by the offset its entry ends at. -/
def onRegionReclaim (lastEntryEndOffset : ℕ) (buffer : Memory)
    (choices : ℕ → Choice) : Option State :=
  forEachEntry cfg buffer
    (fun s offset desc key value =>
      reinsertOrRemoveItem cfg s (choices offset) desc key value ⟨rid, offset⟩)
    lastEntryEndOffset lastEntryEndOffset s

/-- `doReclaim` of a victim the eviction policy gives up. A region with items has been
flushed, and is read from the device. -/
def doReclaim (choices : ℕ → Choice) : Option State :=
  let region := (s.regions rid).readyForReclaim true
  if ¬ s.tracked rid ∨ region.activeOpen true ≠ 0 then none
  else
    let s := { s.setRegion rid region with tracked := Function.update s.tracked rid false }
    let evicted :=
      if region.numItems ≠ 0 then
        onRegionReclaim cfg s rid region.lastEntryEndOffset (onDevice cfg s.device rid) choices
      else some s
    evicted.bind fun s =>
      let s := s.setRegion rid (s.regions rid).waitForActiveReaders
      if (s.regions rid).noReaders then
        some { releaseRegion s rid with reclaimsOutstanding := s.reclaimsOutstanding - 1 }
      else none

/-! ## Runs -/

/-- What a caller or a worker does, with what it got back: a step with a result the
cache does not give is not a step. -/
inductive Label where
  | insert (key value : List UInt8) (lastAccessTimeSecs : UInt32) (onNavyThread : Bool)
      (status : Status)
  | lookup (key : List UInt8) (ld : LookupData)
  | remove (key : List UInt8) (status : Status)
  | reclaim (rid : RegionId) (choices : ℕ → Choice)
  | flush (rid : RegionId) (written : Bool)

/-- The state behind a result, if the result is the one that was given. -/
def answering {ρ : Type} [DecidableEq ρ] (result : ρ) (done : Option (ρ × State)) :
    Option State :=
  done.bind fun (got, s) => if got = result then some s else none

/-- One step. -/
def step : Label → Option State
  | .insert key value time onNavyThread status =>
      answering status (insert cfg s key value time onNavyThread)
  | .lookup key ld => answering ld (lookup cfg s key)
  | .remove key status => answering status (remove cfg s key)
  | .reclaim rid choices => doReclaim cfg s rid choices
  | .flush rid written =>
      if rid ∈ s.flushJobs then
        doFlushInternal cfg { s with flushJobs := s.flushJobs.erase rid } rid written
      else none

end CacheLib.Navy.BlockCache
