/-
`Region` (`cachelib/navy/block_cache/Region.cpp`): the counters and flags that
decide who may read, write, flush or reclaim a region of the device.

Every function here is one critical section of the region's lock. A function of
the source that waits on the condition variable gives up the lock while it waits;
it is cut there, into what it does before (`readyForReclaim` sets a flag) and the
condition it waits for (`activeOpen`). The buffer's type is a parameter: the
protocol only asks whether there is one.
-/
import Mathlib.Algebra.Order.Ring.Nat

set_option autoImplicit false

namespace CacheLib.Navy

/-- The fields of `Region`, with one field per bit of `flags_` that is used. -/
structure Region (β : Type) where
  priority : ℕ := 0
  blockAccess : Bool := false
  flushPending : Bool := false
  flushed : Bool := false
  cleanedup : Bool := false
  beingReclaimed : Bool := false
  activePhysReaders : ℕ := 0
  activeInMemReaders : ℕ := 0
  activeWriters : ℕ := 0
  lastEntryEndOffset : ℕ := 0
  numItems : ℕ := 0
  buffer : Option β := none

/-- `OpenMode`, with the read mode of the descriptor; `None` has no descriptor. -/
inductive OpenMode where
  | write
  | read (physReadMode : Bool)
  deriving DecidableEq, Repr

/-- `--counter` on a `uint32_t`. -/
def decrement (counter : ℕ) : ℕ := if counter = 0 then 2 ^ 32 - 1 else counter - 1

theorem decrement_of_pos {counter : ℕ} (h : 0 < counter) : decrement counter = counter - 1 :=
  if_neg (Nat.pos_iff_ne_zero.mp h)

namespace Region

variable {β : Type} (r : Region β)

/-- `activeOpenLocked` -/
def activeOpen (writersOnly : Bool) : ℕ :=
  if writersOnly then r.activeWriters
  else r.activePhysReaders + r.activeInMemReaders + r.activeWriters

/-- `readyForReclaim` until it waits, which it does for `activeOpen allowRead = 0`. -/
def readyForReclaim (allowRead : Bool) : Region β :=
  if allowRead then { r with beingReclaimed := true } else { r with blockAccess := true }

/-- `waitForActiveReaders` until it waits. -/
def waitForActiveReaders : Region β := { r with blockAccess := true }

/-- What `waitForActiveReaders` waits for. -/
def noReaders : Bool := r.activeInMemReaders == 0 && r.activePhysReaders == 0

/-- `canAllocateLocked`: the sum is a `uint32_t`, the region size is not. -/
def canAllocate (regionSize size : ℕ) : Bool :=
  decide ((r.lastEntryEndOffset + size) % 2 ^ 32 ≤ regionSize)

/-- `openAndAllocate`: the offset of the slot, or `none` for `OpenStatus::Error`. -/
def openAndAllocate (regionSize size : ℕ) : Option (ℕ × Region β) :=
  if r.canAllocate regionSize size then
    some (r.lastEntryEndOffset,
      { r with
        activeWriters := r.activeWriters + 1
        lastEntryEndOffset := (r.lastEntryEndOffset + size) % 2 ^ 32
        numItems := r.numItems + 1 })
  else none

/-- The mode `openForRead` chooses: from the device once the buffer is flushed or
gone. -/
def physReadMode : Bool := r.flushed || r.buffer.isNone

/-- `openForRead`: the mode, or `none` for `OpenStatus::Retry`. -/
def openForRead : Option (Bool × Region β) :=
  if r.blockAccess then none
  else if r.physReadMode then
    some (true, { r with activePhysReaders := r.activePhysReaders + 1 })
  else some (false, { r with activeInMemReaders := r.activeInMemReaders + 1 })

def close : OpenMode → Region β
  | .write => { r with activeWriters := decrement r.activeWriters }
  | .read true => { r with activePhysReaders := decrement r.activePhysReaders }
  | .read false => { r with activeInMemReaders := decrement r.activeInMemReaders }

/-- The counter a descriptor of that mode is counted in. -/
def counter : OpenMode → ℕ
  | .write => r.activeWriters
  | .read true => r.activePhysReaders
  | .read false => r.activeInMemReaders

def attachBuffer (buf : β) : Region β := { r with buffer := some buf }

/-- `detachBuffer` once no reader is in memory, which it waits for. -/
def detachBuffer : Region β := { r with buffer := none }

def setPendingFlush : Region β := { r with flushPending := true }

/-- `flushBuffer` after its callback has written the buffer. -/
def setFlushed : Region β := { r with flushed := true }

/-- `cleanupBuffer` after its callback. -/
def setCleanedup : Region β := { r with cleanedup := true }

/-- `reset`. The buffer is not touched. -/
def reset : Region β := { buffer := r.buffer }

variable {r} in
/-- What `openForRead` checks, chooses and counts. -/
theorem openForRead_eq_some {phys : Bool} {r' : Region β}
    (h : r.openForRead = some (phys, r')) :
    r.blockAccess = false ∧ phys = r.physReadMode ∧
      (∀ mode, r'.counter mode = r.counter mode + if OpenMode.read phys = mode then 1 else 0) ∧
      r'.buffer = r.buffer ∧ r'.flushed = r.flushed ∧ r'.numItems = r.numItems := by
  unfold openForRead at h
  split_ifs at h with hblock hphys <;>
  · obtain ⟨rfl, rfl⟩ := h
    exact ⟨by simpa using hblock, by simp [hphys], by rintro (_ | _ | _) <;> rfl, rfl, rfl, rfl⟩

end Region

end CacheLib.Navy
