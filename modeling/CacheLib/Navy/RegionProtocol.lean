/-
The life of a region, with everyone who works on it
(`cachelib/navy/block_cache/RegionManager.cpp`).

A region is filled by an allocator, flushed, tracked by the eviction policy,
reclaimed and handed out again; each such round is an incarnation. Readers do not
take part in that order. They read the sequence number, look a key up, open the
region the index named and compare the sequence number again. What keeps them from
reading a later incarnation is that reclaim removes the index entries, then raises
the sequence number, and resets the region only when no reader has it open.

One step is one critical section. A reader is a value in a list, not a numbered
thread: readers in the same position are interchangeable. The incarnation is a ghost:
it is counted by `reset`, and stands in index entries, descriptors, the buffer and the
device for the bytes of that round. Which clean or tracked region is taken is left
open, and the sequence number, a `uint64_t`, does not wrap.
-/
import CacheLib.Lib.Run
import CacheLib.Navy.Region

set_option autoImplicit false

namespace CacheLib.Navy

/-- The settings of `RegionManager` that the protocol reads. -/
structure ManagerConfig where
  regionSize : ℕ
  inMemBufFlushRetryLimit : ℕ
  allowReadDuringReclaim : Bool
  deriving DecidableEq, Repr

abbrev RegionId := ℕ

abbrev Key := ℕ

/-- Where the worker of a region stands. -/
inductive Phase where
  /-- held by the eviction policy -/
  | tracked
  /-- `doReclaim`: after `evict`, `readyForReclaim` until and after its wait, and
  after the eviction callback -/
  | evicted
  | marked
  | evicting
  | unlinked
  /-- `releaseEvictedRegion`: after the sequence number, `waitForActiveReaders` until
  and after its wait -/
  | bumped
  | blocking
  | drained
  /-- after `reset`, on the clean list, and taken off it -/
  | resetDone
  | clean
  | taken
  /-- a `RegionAllocator` has it, with a buffer -/
  | allocating
  /-- `doFlushInternal` with that many failed attempts, after the device write, after
  the flag is set, and after the buffer is detached -/
  | flushing (retryAttempts : ℕ)
  | written
  | flushed
  | untracked
  /-- `cleanupBufferOnFlushFailure`: before and after its wait for writers, after the
  callback and after the buffer is detached -/
  | cleaning
  | cleaningEntries
  | cleaned
  | detached
  /-- `releaseCleanedupRegion` after the sequence number -/
  | cleanupBumped
  deriving DecidableEq, Repr

/-- What the index holds for a key, with the incarnation it was written in. -/
structure Entry where
  rid : RegionId
  inc : ℕ
  deriving DecidableEq, Repr

/-- `RegionDescriptor`, with the incarnation it was opened on. -/
structure Desc where
  rid : RegionId
  mode : OpenMode
  inc : ℕ
  deriving DecidableEq, Repr

/-- How far a lookup has come. `mismatched` has the region open and closes it. -/
inductive Reader where
  | seqRead (seqNumber : ℕ)
  | found (seqNumber : ℕ) (entry : Entry)
  | opened (seqNumber : ℕ) (entry : Entry) (desc : Desc)
  | ready (entry : Entry) (desc : Desc)
  | mismatched (desc : Desc)
  deriving DecidableEq, Repr

/-- The descriptor a reader holds. -/
def Reader.desc : Reader → Option Desc
  | .opened _ _ desc => some desc
  | .ready _ desc => some desc
  | .mismatched desc => some desc
  | _ => none

structure State where
  regions : RegionId → Region ℕ := fun _ => {}
  phase : RegionId → Phase := fun _ => .tracked
  seqNumber : ℕ := 0
  index : List (Key × Entry) := []
  device : RegionId → ℕ := fun _ => 0
  incarnation : RegionId → ℕ := fun _ => 0
  readers : List Reader := []
  writers : List Desc := []

namespace State

/-- The descriptors that are open. -/
def descs (s : State) : List Desc := s.readers.filterMap Reader.desc ++ s.writers

/-- The index has no entry for the region. -/
def noEntries (s : State) (rid : RegionId) : Bool := s.index.all fun e => e.2.rid != rid

/-- The index with one key's entry replaced or removed. -/
def setEntry (s : State) (key : Key) (entry : Option Entry) : State :=
  { s with
    index := (entry.map fun e => (key, e)).toList ++ s.index.filter fun e => e.1 != key }

/-- A section of the worker of a region. -/
def setRegion (s : State) (rid : RegionId) (r : Region ℕ) (p : Phase) : State :=
  { s with
    regions := Function.update s.regions rid r
    phase := Function.update s.phase rid p }

/-- A reader's step. -/
def setReader (s : State) (reader : Reader) (next : Option Reader) : State :=
  { s with readers := next.toList ++ s.readers.erase reader }

/-- `region.reset()`: the next incarnation begins. -/
def resetRegion (s : State) (rid : RegionId) : State :=
  { s.setRegion rid (s.regions rid).reset .resetDone with
    incarnation := Function.update s.incarnation rid (s.incarnation rid + 1) }

/-- The bytes a read returns, by the incarnation they were written in. -/
def read (s : State) (desc : Desc) : Option ℕ :=
  match desc.mode with
  | .read true => some (s.device desc.rid)
  | .read false => (s.regions desc.rid).buffer
  | .write => none

/-- The worker's next section is `reset`. -/
def resets (cfg : ManagerConfig) (s : State) (rid : RegionId) : Bool :=
  match s.phase rid with
  | .drained => true
  | .bumped => !cfg.allowReadDuringReclaim
  | .cleanupBumped => true
  | _ => false

/-- The next section of the worker of a region; `none` while it waits. -/
def work (cfg : ManagerConfig) (s : State) (rid : RegionId) : Option State :=
  let r := s.regions rid
  match s.phase rid with
  | .evicted => some (s.setRegion rid (r.readyForReclaim cfg.allowReadDuringReclaim) .marked)
  | .marked =>
      if r.activeOpen cfg.allowReadDuringReclaim = 0 then some (s.setRegion rid r .evicting)
      else none
  | .evicting =>
      -- the callback has come to the end of the region, or there is nothing in it; a reclaim that
      -- leaves entries behind (a short read, a header that does not check out, a callback that
      -- throws) goes no further here
      if r.numItems = 0 || s.noEntries rid then some (s.setRegion rid r .unlinked) else none
  | .unlinked => some { s.setRegion rid r .bumped with seqNumber := s.seqNumber + 1 }
  | .bumped =>
      if cfg.allowReadDuringReclaim then
        some (s.setRegion rid r.waitForActiveReaders .blocking)
      else some (s.resetRegion rid)
  | .blocking => if r.noReaders then some (s.setRegion rid r .drained) else none
  | .drained => some (s.resetRegion rid)
  | .resetDone => some (s.setRegion rid r .clean)
  | .written => some (s.setRegion rid r.setFlushed .flushed)
  | .flushed =>
      if r.activeInMemReaders = 0 then some (s.setRegion rid r.detachBuffer .untracked) else none
  | .untracked => some (s.setRegion rid r .tracked)
  | .cleaning => if r.activeWriters = 0 then some (s.setRegion rid r .cleaningEntries) else none
  | .cleaningEntries =>
      if s.noEntries rid then some (s.setRegion rid r.setCleanedup .cleaned) else none
  | .cleaned =>
      if r.activeInMemReaders = 0 then some (s.setRegion rid r.detachBuffer .detached) else none
  | .detached => some { s.setRegion rid r .cleanupBumped with seqNumber := s.seqNumber + 1 }
  | .cleanupBumped => some (s.resetRegion rid)
  | _ => none

end State

/-! ## Steps -/

inductive Label where
  /-- `lookupInternal`: the sequence number, the index, `openForRead`, its second look
  at the sequence number, `read` and `close` -/
  | getSeqNumber
  | lookup (reader : Reader) (key : Key)
  | openForRead (reader : Reader)
  | checkSeqNumber (reader : Reader)
  | read (reader : Reader)
  | closeReader (reader : Reader)
  /-- a writer: `openAndAllocate`, `updateIndex` and `close`; and the removal of a key -/
  | openAndAllocate (rid : RegionId) (size : ℕ)
  | updateIndex (desc : Desc) (key : Key)
  | closeWriter (desc : Desc)
  | removeKey (key : Key)
  /-- `getCleanRegion`, with and without a buffer left, and `doFlush` -/
  | getCleanRegion (rid : RegionId)
  | assignBuffer (rid : RegionId) (available : Bool)
  | doFlush (rid : RegionId)
  /-- an attempt of `flushBuffer`; `torn` is what a failed one leaves on the device -/
  | deviceWrite (rid : RegionId) (ok : Bool) (torn : ℕ)
  /-- the retry limit is reached -/
  | giveUp (rid : RegionId)
  | evict (rid : RegionId)
  /-- the eviction or cleanup callback at one entry: removed, or reinserted by the
  holder of a write descriptor -/
  | evictEntry (rid : RegionId) (key : Key) (reinserted : Option Desc)
  | work (rid : RegionId)
  deriving DecidableEq, Repr

/-- The entry a writer puts in the index. -/
def Desc.entry (desc : Desc) : Entry := ⟨desc.rid, desc.inc⟩

open State in
def step (cfg : ManagerConfig) (s : State) : Label → Option State
  | .getSeqNumber => some { s with readers := .seqRead s.seqNumber :: s.readers }
  | .lookup reader key =>
      if reader ∈ s.readers then
        match reader with
        | .seqRead seqNumber =>
            some (s.setReader reader ((s.index.lookup key).map fun e => .found seqNumber e))
        | _ => none
      else none
  | .openForRead reader =>
      if reader ∈ s.readers then
        match reader with
        | .found seqNumber entry =>
            match (s.regions entry.rid).openForRead with
            | none => some (s.setReader reader none)
            | some (physReadMode, r) =>
                let desc : Desc := ⟨entry.rid, .read physReadMode, s.incarnation entry.rid⟩
                some ((s.setRegion entry.rid r (s.phase entry.rid)).setReader reader
                  (some (.opened seqNumber entry desc)))
        | _ => none
      else none
  | .checkSeqNumber reader =>
      if reader ∈ s.readers then
        match reader with
        | .opened seqNumber entry desc =>
            some (s.setReader reader
              (some (if s.seqNumber = seqNumber then .ready entry desc else .mismatched desc)))
        | _ => none
      else none
  | .read reader =>
      if reader ∈ s.readers then
        match reader with
        | .ready _ _ => some s
        | _ => none
      else none
  | .closeReader reader =>
      if reader ∈ s.readers then
        match reader with
        | .ready _ desc | .mismatched desc =>
            some ((s.setRegion desc.rid ((s.regions desc.rid).close desc.mode)
              (s.phase desc.rid)).setReader reader none)
        | _ => none
      else none
  | .openAndAllocate rid size =>
      if s.phase rid = .allocating then
        match (s.regions rid).openAndAllocate cfg.regionSize size with
        | none => some s
        | some (_, r) =>
            some { s.setRegion rid r .allocating with
              writers := ⟨rid, .write, s.incarnation rid⟩ :: s.writers }
      else none
  | .updateIndex desc key =>
      if desc ∈ s.writers then some (s.setEntry key (some desc.entry)) else none
  | .closeWriter desc =>
      if desc ∈ s.writers then
        some { s.setRegion desc.rid ((s.regions desc.rid).close desc.mode) (s.phase desc.rid) with
          writers := s.writers.erase desc }
      else none
  | .removeKey key => some (s.setEntry key none)
  | .getCleanRegion rid =>
      if s.phase rid = .clean then some (s.setRegion rid (s.regions rid) .taken) else none
  | .assignBuffer rid available =>
      if s.phase rid = .taken then
        if available then
          some (s.setRegion rid ((s.regions rid).attachBuffer (s.incarnation rid)) .allocating)
        else some (s.setRegion rid (s.regions rid) .clean)
      else none
  | .doFlush rid =>
      if s.phase rid = .allocating then
        some (s.setRegion rid (s.regions rid).setPendingFlush (.flushing 0))
      else none
  | .deviceWrite rid ok torn =>
      match s.phase rid with
      | .flushing retryAttempts =>
          if cfg.inMemBufFlushRetryLimit ≤ retryAttempts then none
          else if (s.regions rid).activeWriters ≠ 0 then some s
          else if ok then
            some { s.setRegion rid (s.regions rid) .written with
              device := Function.update s.device rid (s.incarnation rid) }
          else
            some { s.setRegion rid (s.regions rid) (.flushing (retryAttempts + 1)) with
              device := Function.update s.device rid torn }
      | _ => none
  | .giveUp rid =>
      match s.phase rid with
      | .flushing retryAttempts =>
          if cfg.inMemBufFlushRetryLimit ≤ retryAttempts then
            some (s.setRegion rid (s.regions rid) .cleaning)
          else none
      | _ => none
  | .evict rid =>
      if s.phase rid = .tracked then some (s.setRegion rid (s.regions rid) .evicted) else none
  | .evictEntry rid key reinserted =>
      if (s.phase rid = .evicting ∨ s.phase rid = .cleaningEntries) ∧
          (s.index.lookup key).map Entry.rid = some rid ∧
          (∀ desc ∈ reinserted, desc ∈ s.writers) then
        some (s.setEntry key (reinserted.map Desc.entry))
      else none
  | .work rid => s.work cfg rid

end CacheLib.Navy
