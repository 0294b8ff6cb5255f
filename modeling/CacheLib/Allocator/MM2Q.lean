/-
`MM2Q` (`cachelib/allocator/MM2Q.h`), the container that decides what is evicted.

Its nodes are in five queues: hot, warm and cold ones, and the tails of the last two. A
node does not know its queue. Three flags of the node say which one it is, and every
operation that takes a node out goes by them, so flags and links have to change together.
Nothing else ties them to each other, and the flags outlive the membership: `removeLocked`
leaves them as they are, `add` overwrites all three, `replace` sets some and clears none.

There is no result where the code would follow a null pointer. The times come from
outside, and so does whether a `tryLock` succeeds.
-/
import CacheLib.Allocator.DList
import CacheLib.Lib.Run
import Mathlib.Data.UInt

set_option autoImplicit false

namespace CacheLib.MM2Q

open Transition

/-! ## Configuration and nodes -/

inductive LruType
  | warm
  | warmTail
  | hot
  | cold
  | coldTail
  deriving DecidableEq, Repr

structure Config where
  defaultLruRefreshTime : UInt32 := 60
  lruRefreshTime : UInt32 := 60
  /-- a number of seconds times `lruRefreshRatio`, as a `uint32_t` -/
  timesLruRefreshRatio : UInt32 → UInt32 := fun _ => 0
  updateOnWrite : Bool := false
  updateOnRead : Bool := true
  tryLockUpdate : Bool := false
  rebalanceOnRecordAccess : Bool := true
  hotSizePercent : UInt64 := 30
  coldSizePercent : UInt64 := 30
  tailSize : UInt64 := 0
  mmReconfigureIntervalSecs : UInt32 := 0

def Config.getWarmSizePercent (cfg : Config) : UInt64 :=
  100 - cfg.hotSizePercent - cfg.coldSizePercent

def kLruRefreshTimeCap : UInt32 := 900

/-- A node, without its links -/
structure Node where
  updateTime : UInt32 := 0
  /-- `isInMMContainer` -/
  inMMContainer : Bool := false
  /-- `kMMFlag0` -/
  hot : Bool := false
  /-- `kMMFlag1` -/
  tail : Bool := false
  /-- `kMMFlag2` -/
  cold : Bool := false
  deriving DecidableEq, Repr

namespace Node

variable (n : Node)

def markHot : Node := { n with hot := true }
def unmarkHot : Node := { n with hot := false }
def markCold : Node := { n with cold := true }
def unmarkCold : Node := { n with cold := false }
def markTail : Node := { n with tail := true }
def unmarkTail : Node := { n with tail := false }
def markInMMContainer : Node := { n with inMMContainer := true }
def unmarkInMMContainer : Node := { n with inMMContainer := false }
def setUpdateTime (time : UInt32) : Node := { n with updateTime := time }

end Node

variable (cfg : Config)

def inTail (n : Node) : Bool := cfg.tailSize ≠ 0 && n.tail

def getLruType (n : Node) : LruType :=
  if n.hot then .hot
  else if n.cold then if inTail cfg n then .coldTail else .cold
  else if inTail cfg n then .warmTail
  else .warm

/-! ## State -/

variable {α : Type*} [DecidableEq α]

structure State (α : Type*) where
  /-- `lru_`, with the hooks of the nodes -/
  lru : MultiDList LruType α := {}
  node : α → Node := fun _ => {}
  lruRefreshTime : UInt32
  nextReconfigureTime : UInt32

/-- A new container, made at `time`. No node has been in it. -/
def init (time : UInt32) : State α where
  lruRefreshTime := cfg.lruRefreshTime
  nextReconfigureTime :=
    if cfg.mmReconfigureIntervalSecs = 0 then 2 ^ 32 - 1 else time + cfg.mmReconfigureIntervalSecs

variable (s : State α)

namespace State

def getList (lruType : LruType) : DList α := s.lru.lists lruType

/-- `getList(lruType).size()` -/
def size (lruType : LruType) : ℕ := (s.getList lruType).size

/-- `lru_.size()` -/
def lruSize : ℕ :=
  s.size .warm + s.size .warmTail + s.size .hot + s.size .cold + s.size .coldTail

/-- A change of a node -/
def set (node : α) (f : Node → Node) : State α :=
  { s with node := Function.update s.node node (f (s.node node)) }

/-- `getList(lruType).linkAtHead(node)` -/
def linkAtHead (lruType : LruType) (node : α) : State α :=
  { s with lru := s.lru.onList lruType fun d l => d.linkAtHead l node }

/-- `getList(lruType).remove(node)` -/
def unlink (lruType : LruType) (node : α) : State α :=
  { s with lru := s.lru.onList lruType fun d l => d.remove l node }

/-- `getList(lruType).moveToHead(node)` -/
def moveToHead (lruType : LruType) (node : α) : State α :=
  { s with lru := s.lru.onList lruType fun d l => d.moveToHead l node }

/-- `getList(lruType).replace(oldNode, newNode)` -/
def replaceIn (lruType : LruType) (oldNode newNode : α) : State α :=
  { s with lru := s.lru.onList lruType fun d l => d.replace l oldNode newNode }

variable {s} {node node' : α} {f g : Node → Node} {t u : LruType}

@[simp] theorem set_node_self : (s.set node f).node node = f (s.node node) := by
  simp only [set, Function.update_self]

theorem set_node_of_ne (h : node' ≠ node) : (s.set node f).node node' = s.node node' := by
  simp only [set, Function.update_of_ne h]

theorem linkAtHead_size : (s.linkAtHead t node).size u = if u = t then s.size u + 1 else s.size u := by
  simp only [size, getList, linkAtHead, MultiDList.onList, Function.update_apply]
  split
  · rename_i heq
    rw [heq]
    rfl
  · rfl

theorem unlink_size : (s.unlink t node).size u = if u = t then s.size u - 1 else s.size u := by
  simp only [size, getList, unlink, MultiDList.onList, Function.update_apply]
  split
  · rename_i heq
    rw [heq]
    rfl
  · rfl

end State

/-! ## Rebalancing -/

/-- `getTailLru`, which throws for the other queues -/
def getTailLru : LruType → Option LruType
  | .warm => some .warmTail
  | .cold => some .coldTail
  | _ => none

/-- A round of the loop in `adjustTail` -/
def moveToTail (list tailList : LruType) (s : State α) : Option (State α) :=
  (s.getList list).tail.map fun ptr =>
    let s := s.set ptr Node.markTail
    (s.unlink list ptr).linkAtHead tailList ptr

def adjustTail (list : LruType) (s : State α) : Option (State α) :=
  (getTailLru list).bind fun tailList =>
    loop (fun s => (s.getList list).tail.isSome && s.size tailList + 1 ≤ cfg.tailSize.toNat)
      (moveToTail list tailList) (cfg.tailSize.toNat - s.size tailList) s

/-- A round of the first loop in `rebalance`: a node of `WarmTail`, or of `Warm` if that is empty -/
def shrinkWarm : Option (State α) :=
  let lruType := if 0 < s.size .warmTail then LruType.warmTail else LruType.warm
  (s.getList lruType).tail.map fun node =>
    let s := s.unlink lruType node
    let s := if lruType = .warmTail ∨ lruType = .coldTail then s.set node Node.unmarkTail else s
    (s.linkAtHead .cold node).set node Node.markCold

/-- A round of the second loop in `rebalance` -/
def shrinkHot : Option (State α) :=
  (s.getList .hot).tail.map fun node =>
    let s := (s.unlink .hot node).linkAtHead .cold node
    (s.set node Node.unmarkHot).set node Node.markCold

def rebalance : Option (State α) := do
  let expectedSize := cfg.getWarmSizePercent * UInt64.ofNat s.lruSize / 100
  let s ← loop (fun s => expectedSize.toNat < s.size .warm + s.size .warmTail) shrinkWarm
    (s.size .warm + s.size .warmTail) s
  let expectedSize := cfg.hotSizePercent * UInt64.ofNat s.lruSize / 100
  let s ← loop (fun s => expectedSize.toNat < s.size .hot) shrinkHot (s.size .hot) s
  let s ← adjustTail cfg .cold s
  adjustTail cfg .warm s

/-! ## Operations -/

def add (node : α) (currTime : UInt32) : Option (State α × Bool) :=
  if (s.node node).inMMContainer then some (s, false)
  else do
    let s := s.set node fun n => n.markHot.unmarkCold.unmarkTail
    let s ← rebalance cfg (s.linkAtHead .hot node)
    some (s.set node fun n => n.markInMMContainer.setUpdateTime currTime, true)

def removeLocked (node : α) (doRebalance : Bool) : Option (State α) := do
  let lruType := getLruType cfg (s.node node)
  let s := s.unlink lruType node
  let s ← if doRebalance then rebalance cfg s else some s
  some (s.set node Node.unmarkInMMContainer)

/-- `remove` of a node -/
def remove (node : α) : Option (State α × Bool) :=
  if !(s.node node).inMMContainer then some (s, false)
  else (removeLocked cfg s node true).map (·, true)

/-- The flags that `replace` sets at the new node -/
def markAs : LruType → Node → Node
  | .hot, n => n.markHot
  | .coldTail, n => n.markTail.markCold
  | .cold, n => n.markCold
  | .warmTail, n => n.markTail
  | .warm, n => n

def replace (oldNode newNode : α) : State α × Bool :=
  if !(s.node oldNode).inMMContainer || (s.node newNode).inMMContainer then (s, false)
  else
    let updateTime := (s.node oldNode).updateTime
    let lruType := getLruType cfg (s.node oldNode)
    let s := s.replaceIn lruType oldNode newNode
    let s := s.set newNode (markAs lruType)
    let s := s.set oldNode Node.unmarkInMMContainer
    (s.set newNode fun n => n.markInMMContainer.setUpdateTime updateTime, true)

inductive AccessMode
  | read
  | write
  deriving DecidableEq, Repr

/-- An access: when it happens, by the clock that `recordAccess` reads and by the one that is read
for the ages, and whether the lock is free for a `tryLock`. -/
structure Access where
  mode : AccessMode := .read
  curr : UInt32
  now : UInt32 := curr
  free : Bool := true
  deriving DecidableEq, Repr

/-- `getOldestAgeLocked(WarmTail, now)`. Where `WarmTail` is empty the iterator has gone on to `Warm`. -/
def getOldestWarmAge (now : UInt32) : UInt32 :=
  let lruType := if s.size .warmTail = 0 then LruType.warm else LruType.warmTail
  match (s.getList lruType).tail with
  | none => 0
  | some node => now - (s.node node).updateTime

def reconfigureLocked (access : Access) : State α :=
  if access.curr < s.nextReconfigureTime then s
  else
    let age := cfg.timesLruRefreshRatio (getOldestWarmAge s access.now)
    { s with
      nextReconfigureTime := access.curr + cfg.mmReconfigureIntervalSecs
      lruRefreshTime := min (max cfg.defaultLruRefreshTime age) kLruRefreshTimeCap }

/-- What `recordAccess` does to the queues -/
def promote (node : α) : Option (State α) :=
  let n := s.node node
  if n.hot then some (s.moveToHead .hot node)
  else if n.cold then
    let s :=
      if inTail cfg n then (s.set node Node.unmarkTail).unlink .coldTail node
      else s.unlink .cold node
    let s := (s.linkAtHead .warm node).set node Node.unmarkCold
    if cfg.rebalanceOnRecordAccess then rebalance cfg s else some s
  else if inTail cfg n then
    some (((s.set node Node.unmarkTail).unlink .warmTail node).linkAtHead .warm node)
  else some (s.moveToHead .warm node)

def recordAccess (node : α) (access : Access) : Option (State α × Bool) :=
  if (access.mode = .write ∧ !cfg.updateOnWrite) ∨ (access.mode = .read ∧ !cfg.updateOnRead) then
    some (s, false)
  else if !((s.node node).inMMContainer &&
      (s.node node).updateTime + s.lruRefreshTime ≤ access.curr) then some (s, false)
  else if cfg.tryLockUpdate && !access.free then some (s, false)
  else do
    let s := reconfigureLocked cfg s access
    if !(s.node node).inMMContainer then some (s, false)
    else
      let s ← promote cfg s node
      some (s.set node (·.setUpdateTime access.curr), true)

/-! ### The eviction iterator -/

/-- `MultiDList::Iterator`: the lists from that of `index_` on, down to the first one, and the node.
There are no lists left once `index_` is invalid. -/
structure Iterator (α : Type*) where
  lists : List LruType
  curr : Option α

/-- The lists in the order of the iterator -/
def evictionOrder : List LruType := [.coldTail, .cold, .hot, .warmTail, .warm]

/-- `initToValidRBeginFrom` -/
def rbeginFrom (s : State α) : List LruType → Iterator α
  | [] => ⟨[], none⟩
  | t :: ts => if s.size t = 0 then rbeginFrom s ts else ⟨t :: ts, (s.getList t).tail⟩

/-- The loop of `goForward`: from the end of a list to the next one that has an end -/
def skipEnds (s : State α) : List LruType → Option α → Iterator α
  | [], _ => ⟨[], none⟩
  | t :: ts, some node => ⟨t :: ts, some node⟩
  | _ :: ts, none => skipEnds s ts (ts.head?.bind fun t => (s.getList t).tail)

def goForward (it : Iterator α) : Iterator α :=
  if it.lists = [] then it else skipEnds s it.lists (it.curr.bind s.lru.links.prev)

/-- What can be done with the eviction iterator -/
inductive Move
  | next
  | remove
  | resetToBegin
  deriving DecidableEq, Repr

/-- A move. The lock is held, and nobody else moves. -/
def move (r : State α × Iterator α) : Move → Option (State α × Iterator α)
  | .next => some (r.1, goForward r.1 r.2)
  | .remove => do
      let node ← r.2.curr
      let it := goForward r.1 r.2
      let s ← removeLocked cfg r.1 node false
      some (s, it)
  | .resetToBegin => some (r.1, rbeginFrom r.1 evictionOrder)

/-- `withEvictionIterator`, with a function that makes these moves -/
def withEvictionIterator (moves : List Move) : Option (State α) :=
  (exec (move cfg) (s, rbeginFrom s evictionOrder) moves).map Prod.fst

/-! ## Runs -/

inductive Op (α : Type*)
  | add (node : α) (currTime : UInt32)
  | remove (node : α)
  | replace (oldNode newNode : α)
  | recordAccess (node : α) (access : Access)
  | withEvictionIterator (moves : List Move)

def step : Op α → Option (State α)
  | .add node currTime => (add cfg s node currTime).map Prod.fst
  | .remove node => (remove cfg s node).map Prod.fst
  | .replace oldNode newNode => some (replace cfg s oldNode newNode).1
  | .recordAccess node access => (recordAccess cfg s node access).map Prod.fst
  | .withEvictionIterator moves => withEvictionIterator cfg s moves

end CacheLib.MM2Q
