/-
Requests and resizes of a compact cache (`CompactCache`, `Cohort`, `CCacheAllocator`).

A request finds its bucket from a number of chunks that a resize may be changing. What holds the two
together is the cohort: a request takes a reference to the current one for as long as it runs, and a
resize switches to the other one and waits until the references to the old one are gone. While the
entries are moved, writes go to both places.

Every load and every store of a count, every read and write of the vectors of chunks, every access
to a bucket under its lock and every atomic operation on the cohort is a step, for any number of
requests and resizes. Chunks have identities, so that one that has been released is not mistaken for
the one that takes its place. Which entries the buckets have is left open, as are lock timeouts and
which callbacks throw.
-/
import CacheLib.Lib.Run
import CacheLib.Lib.Threads

set_option autoImplicit false

namespace CacheLib.CompactCache

/-- `furcHash`: "numChunks <= 1 returns 0 for chunkIndex" -/
structure Config (Key : Type) where
  hash : Key → ℕ → ℕ
  hash_zero : ∀ key, hash key 0 = 0
  hash_lt : ∀ key n, 0 < n → hash key n < n

inductive Op where
  | get | set | del
  deriving DecidableEq

/-- A call of `get`, `set` or `del` -/
structure Call (Key : Type) where
  op : Op
  key : Key

/-- `callBucketFn` up to its token: the test for zero and the loop of `incrActiveReqs` -/
inductive Entering where
  | check
  | loadCohort
  | incr (top : Bool)
  | undo (top : Bool)

/-- What a chunk is looked up for: `tableFindBucket`, or the old and the new chunk of
`tableFindDblWriteBucket` -/
inductive Lookup where
  | first
  | old (pending : ℕ)
  | new (chunk : ℕ)

/-- `callBucketFn` from there on. `getChunk` loads the index of the current vector, reads the size
of this vector, loads the index again and reads the element. -/
inductive RequestPc where
  | find
  | locate (lookup : Lookup) (numChunks : ℕ)
  | size (lookup : Lookup) (chunkNum : ℕ) (index : Bool)
  | again (lookup : Lookup) (chunkNum : ℕ)
  | element (lookup : Lookup) (chunkNum : ℕ) (index : Bool)
  | access (chunk : ℕ)
  | promote (chunk : ℕ)
  | loadPending
  | loadCount (pending : ℕ)
  | accessDbl (chunk : ℕ)
  | finish

/-- `resize` before it has the lock -/
inductive Waiting where
  | loadCount
  | loadConfigured (oldNumChunks : ℕ)
  | lock (oldNumChunks numChunksWanted : ℕ)

inductive Thread (Key : Type) where
  | entering (call : Call Key) (pc : Entering)
  | request (call : Call Key) (top : Bool) (pc : RequestPc)
  | waiting (pc : Waiting)

/-- What a resize has done when it switches cohorts: announced the new count, stored it, taken the
announcement back; or stored it at once, from or to zero -/
inductive Stage where
  | announced | moved | cleared | zero
  deriving DecidableEq

inductive RehashOperation where
  | copy | delete
  deriving DecidableEq

/-- How the allocator publishes a vector: it assigns it to the other one, which is empty at some
time during the assignment, and makes this the current one. -/
inductive Publish where
  | clear | assign | flip

/-- `resize` with the lock. `allocator_.resize()` is in several steps, as the chunks are released
before the vector without them is published. -/
inductive ResizePc where
  | grow (oldNumChunks numChunksWanted : ℕ)
  | growPublish (oldNumChunks numChunksWanted : ℕ) (chunks : List ℕ) (publish : Publish)
  | store (oldNumChunks newNumChunks : ℕ)
  | switch (oldNumChunks newNumChunks : ℕ) (stage : Stage)
  | drain (oldNumChunks newNumChunks : ℕ) (stage : Stage) (top : Bool)
  | rehash (oldNumChunks newNumChunks : ℕ) (op : RehashOperation) (n : ℕ)
  | visit (oldNumChunks newNumChunks : ℕ) (op : RehashOperation) (n chunk : ℕ)
  | copy (oldNumChunks newNumChunks n chunk newChunk : ℕ)
  | storeCount (oldNumChunks newNumChunks : ℕ)
  | clearPending (oldNumChunks newNumChunks : ℕ)
  | shrink (oldNumChunks newNumChunks : ℕ)
  | shrinkPublish (newNumChunks : ℕ) (chunks : List ℕ) (publish : Publish)

structure Shared where
  /-- `cohortVal_`: the current cohort, and the references to both -/
  top : Bool
  refs : Bool → ℕ
  numChunks : ℕ
  pendingNumChunks : ℕ
  /-- The configured size, in chunks -/
  configured : ℕ
  /-- `currentChunksIndex_`, the vector `chunks_` has there, and its other one -/
  current : Bool
  chunks : List ℕ
  spare : List ℕ
  nextChunk : ℕ
  released : List ℕ
  /-- History: an index was computed for a table of zero chunks; a chunk was accessed that had been
  released, or one that a vector does not have -/
  zeroIndexed : Bool
  accessedReleased : Bool

structure State (Key : Type) extends Shared where
  threads : List (Thread Key)
  resizer : Option ResizePc

/-- What the code leaves open: the next entry the rehasher comes to in a bucket, and whether it is
moved; how many chunks can be allocated. An exception of the allocator comes when so many chunks
have been released. -/
inductive Choice (Key : Type) where
  | go
  | timeout
  | promote
  | visit (key : Key) (moved : Bool)
  | allocate (n : ℕ)
  | throw (n : ℕ)

def Choice.isThrow {Key : Type} : Choice Key → Bool
  | throw _ => true
  | _ => false

/-- Where a request goes with the chunk it has looked up -/
def Lookup.found (chunk : ℕ) : Lookup → RequestPc
  | first => .access chunk
  | old pending => .locate (.new chunk) pending
  | new chunkOld => if chunkOld = chunk then .finish else .accessDbl chunk

section Steps

variable {Key : Type} (cfg : Config Key)

namespace Shared

variable (s : Shared)

def addRef (top : Bool) : Shared := { s with refs := Function.update s.refs top (s.refs top + 1) }

def decRef (top : Bool) : Shared := { s with refs := Function.update s.refs top (s.refs top - 1) }

/-- `chunks_[index]` -/
def vector (index : Bool) : List ℕ := if index = s.current then s.chunks else s.spare

/-- `tableFindChunk` of the resize, which is the only one to change the vectors: nothing if
`getChunk` throws -/
def tableFindChunk (numChunks : ℕ) (key : Key) : Option ℕ := s.chunks[cfg.hash key numChunks]?

def noteIndex (numChunks : ℕ) : Shared :=
  { s with zeroIndexed := s.zeroIndexed || decide (numChunks = 0) }

def noteAccess (chunk : ℕ) : Shared :=
  { s with accessedReleased := s.accessedReleased || decide (chunk ∈ s.released) }

/-- A step of `callBucketFn` before it has its token -/
def enter (call : Call Key) : Entering → Shared × List (Thread Key)
  | .check =>
      -- The call is over with an error if there are no chunks.
      if s.numChunks = 0 then (s, []) else (s, [.entering call .loadCohort])
  | .loadCohort => (s, [.entering call (.incr s.top)])
  | .incr top =>
      if s.top = top then (s.addRef top, [.request call top .find])
      else (s.addRef top, [.entering call (.undo top)])
  | .undo top => (s.decRef top, [.entering call .loadCohort])

/-- The request handler on a bucket, under its lock. A read may find an entry that has to be
promoted; a write goes on with `next`, or a callback throws. -/
def handler (call : Call Key) (top : Bool) (chunk : ℕ) (next : RequestPc) (choice : Choice Key) :
    Shared × List (Thread Key) :=
  match call.op, choice with
  | .get, .promote => (s.noteAccess chunk, [.request call top (.promote chunk)])
  | .get, _ => (s.noteAccess chunk, [.request call top .finish])
  | _, .throw _ => ((s.noteAccess chunk).decRef top, [])
  | _, _ => (s.noteAccess chunk, [.request call top next])

/-- A step of `callBucketFn` with its token. An exception gives the token back. -/
def request (call : Call Key) (top : Bool) (choice : Choice Key) :
    RequestPc → Shared × List (Thread Key)
  | .find => (s, [.request call top (.locate .first s.numChunks)])
  | .locate lookup n =>
      (s.noteIndex n, [.request call top (.size lookup (cfg.hash call.key n) s.current)])
  | .size lookup chunkNum index =>
      if chunkNum < (s.vector index).length then (s, [.request call top (.again lookup chunkNum)])
      else (s.decRef top, [])
  | .again lookup chunkNum => (s, [.request call top (.element lookup chunkNum s.current)])
  | .element lookup chunkNum index =>
      match (s.vector index)[chunkNum]? with
      | none => ({ s.decRef top with accessedReleased := true }, [])
      | some chunk => (s, [.request call top (lookup.found chunk)])
  | .access chunk =>
      match choice with
      | .timeout => (s, [.request call top .finish])
      | _ => s.handler call top chunk .loadPending choice
  | .promote chunk =>
      match choice with
      | .timeout => (s, [.request call top .finish])
      | _ => (s.noteAccess chunk, [.request call top .finish])
  | .loadPending =>
      if s.pendingNumChunks = 0 then (s, [.request call top .finish])
      else (s, [.request call top (.loadCount s.pendingNumChunks)])
  | .loadCount pending => (s, [.request call top (.locate (.old pending) s.numChunks)])
  | .accessDbl chunk => s.handler call top chunk .finish choice
  | .finish => (s.decRef top, [])

/-- The first half of `CCacheAllocator::resize`: the vector that is going to be published -/
def allocatorResize (choice : Choice Key) : Option (Shared × List ℕ) :=
  if s.configured < s.chunks.length then
    some ({ s with released := s.chunks.drop s.configured ++ s.released },
      s.chunks.take s.configured)
  else match choice with
    | .allocate n =>
        if s.chunks.length + n ≤ s.configured then
          some ({ s with nextChunk := s.nextChunk + n },
            s.chunks ++ (List.range n).map (s.nextChunk + ·))
        else none
    | _ => none

/-- Its second half -/
def publish (chunks : List ℕ) : Publish → Shared
  | .clear => { s with spare := [] }
  | .assign => { s with spare := chunks }
  | .flip => { s with current := !s.current, chunks := s.spare, spare := s.chunks }

/-- What a resize does after it has switched cohorts -/
def afterSwitch (old new : ℕ) : Stage → ResizePc
  | .announced => .rehash old new .copy 0
  | .moved => .clearPending old new
  | .cleared => .rehash old new .delete 0
  | .zero => .shrink old new

/-- `allocate` or `release` throws: the vectors stay as they are. -/
def allocatorThrows (n : ℕ) : Option Shared :=
  if n = 0 ∨ s.configured + n ≤ s.chunks.length then
    some { s with released := s.chunks.drop (s.chunks.length - n) ++ s.released }
  else none

/-- An exception of a callback or of the allocator ends the resize. The locks are free again. -/
def throws (n : ℕ) : ResizePc → Option Shared
  | .grow _ _ => s.allocatorThrows n
  | .shrink old new => if new < old then s.allocatorThrows n else none
  | .visit _ _ _ _ chunk => some (s.noteAccess chunk)
  | .copy _ _ _ _ newChunk => some (s.noteAccess newChunk)
  | _ => none

/-- A step of `resize` with the lock, without exceptions of others. When there is nothing left to
do, or `getChunk` throws, the lock is free again. -/
def resize (choice : Choice Key) : ResizePc → Option (Shared × Option ResizePc)
  | .grow old wanted =>
      (s.allocatorResize choice).map fun (s, chunks) =>
        (s, some (.growPublish old wanted chunks .clear))
  | .growPublish old wanted chunks .clear =>
      some (s.publish chunks .clear, some (.growPublish old wanted chunks .assign))
  | .growPublish old wanted chunks .assign =>
      some (s.publish chunks .assign, some (.growPublish old wanted chunks .flip))
  | .growPublish old wanted chunks .flip =>
      if chunks.length ≠ wanted ∧ chunks.length = old then some (s.publish chunks .flip, none)
      else some (s.publish chunks .flip, some (.store old chunks.length))
  | .store old new =>
      if 0 < new ∧ 0 < old then
        some ({ s with pendingNumChunks := new }, some (.switch old new .announced))
      else some ({ s with numChunks := new }, some (.switch old new .zero))
  | .switch old new stage => some ({ s with top := !s.top }, some (.drain old new stage s.top))
  | .drain old new stage top =>
      if s.refs top = 0 then some (s, some (afterSwitch old new stage)) else none
  | .rehash old new op n =>
      if n < old then
        match s.chunks[n]? with
        | none => some (s, none)
        | some chunk => some (s, some (.visit old new op n chunk))
      else match op with
        | .copy => some (s, some (.storeCount old new))
        | .delete => some (s, some (.shrink old new))
  | .visit old new op n chunk =>
      match choice with
      | .visit key moved =>
          match s.tableFindChunk cfg new key with
          | none => some ((s.noteAccess chunk).noteIndex new, none)
          | some newChunk =>
              if op = .copy ∧ moved = true ∧ newChunk ≠ chunk then
                some ((s.noteAccess chunk).noteIndex new, some (.copy old new n chunk newChunk))
              else some ((s.noteAccess chunk).noteIndex new, some (.visit old new op n chunk))
      | _ => some (s, some (.rehash old new op (n + 1)))
  | .copy old new n chunk newChunk =>
      some (s.noteAccess newChunk, some (.visit old new .copy n chunk))
  | .storeCount old new => some ({ s with numChunks := new }, some (.switch old new .moved))
  | .clearPending old new => some ({ s with pendingNumChunks := 0 }, some (.switch old new .cleared))
  | .shrink old new =>
      if new < old then
        (s.allocatorResize choice).map fun (s, chunks) => (s, some (.shrinkPublish new chunks .clear))
      else some (s, none)
  | .shrinkPublish new chunks .clear =>
      some (s.publish chunks .clear, some (.shrinkPublish new chunks .assign))
  | .shrinkPublish new chunks .assign =>
      some (s.publish chunks .assign, some (.shrinkPublish new chunks .flip))
  | .shrinkPublish _ chunks .flip => some (s.publish chunks .flip, none)

end Shared

inductive Label (Key : Type) where
  | call (op : Op) (key : Key)
  | resize
  /-- Somebody sets the size of the pool. -/
  | configure (n : ℕ)
  | run (i : ℕ) (choice : Choice Key)
  | runResizer (choice : Choice Key)

namespace State

/-- A step of a resize that waits for the lock -/
def wait (s : State Key) (i : ℕ) : Waiting → Option (State Key)
  | .loadCount =>
      some { s with threads := Threads.replaceAt s.threads i [.waiting (.loadConfigured s.numChunks)] }
  | .loadConfigured old =>
      if old = s.configured then some { s with threads := Threads.replaceAt s.threads i [] }
      else some { s with
        threads := Threads.replaceAt s.threads i [.waiting (.lock old s.configured)] }
  | .lock old wanted =>
      match s.resizer with
      | some _ => none
      | none => some { s with
          threads := Threads.replaceAt s.threads i []
          resizer := some (if old < wanted then .grow old wanted else .store old wanted) }

def runThread (s : State Key) (i : ℕ) (choice : Choice Key) : Thread Key → Option (State Key)
  | .entering call pc =>
      let (shared, new) := s.toShared.enter call pc
      some { s with toShared := shared, threads := Threads.replaceAt s.threads i new }
  | .request call top pc =>
      let (shared, new) := s.toShared.request cfg call top choice pc
      some { s with toShared := shared, threads := Threads.replaceAt s.threads i new }
  | .waiting pc => s.wait i pc

def runResizer (s : State Key) (choice : Choice Key) (pc : ResizePc) : Option (State Key) :=
  match choice with
  | .throw n =>
      (s.toShared.throws n pc).map fun shared => { s with toShared := shared, resizer := none }
  | _ =>
      (s.toShared.resize cfg choice pc).map fun (shared, resizer) =>
        { s with toShared := shared, resizer := resizer }

end State

def step (s : State Key) : Label Key → Option (State Key)
  | .call op key => some { s with threads := .entering ⟨op, key⟩ .check :: s.threads }
  | .resize => some { s with threads := .waiting .loadCount :: s.threads }
  | .configure n => some { s with configured := n }
  | .run i choice => s.threads[i]?.bind (s.runThread cfg i choice)
  | .runResizer choice => s.resizer.bind (s.runResizer cfg choice)

end Steps

/-- A cache of so many chunks -/
def State.new {Key : Type} (numChunks configured : ℕ) : State Key where
  top := false
  refs := fun _ => 0
  numChunks := numChunks
  pendingNumChunks := 0
  configured := configured
  current := false
  chunks := List.range numChunks
  spare := []
  nextChunk := numChunks
  released := []
  zeroIndexed := false
  accessedReleased := false
  threads := []
  resizer := none

end CacheLib.CompactCache
