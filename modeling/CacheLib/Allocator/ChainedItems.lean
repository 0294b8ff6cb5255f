/-
Chained items of a `CacheAllocator`.

The children of an item are chained from one to the next. The head of the chain is found in a second
access container, whose keys are the items: the key of a child is the item it has been allocated
for, and only the head is in the container. The container is the map that `AccessContainerMap` shows
it to be. A child is in the MM container as long as it is in a chain, and its parent has one
reference to it.
-/
import CacheLib.Allocator.AccessContainerMap

set_option autoImplicit false

namespace CacheLib.ChainedItems

open Function

open AccessContainer (Op Config)

inductive Result (Child : Type) where
  | done
  | handle (child : Child)
  | threw
  deriving DecidableEq

inductive Call (Parent Child : Type) where
  | addChainedItem (parent : Parent) (child : Child)
  | popChainedItem (parent : Parent)
  | replaceChainedItem (oldItem newItem : Child) (parent : Parent)
  | transferChainAndReplace (parent newParent : Parent)

structure State (Parent Child : Type) where
  /-- The key of a child is its parent. -/
  key : Child → Parent
  next : Child → Option Child
  /-- `chainedItemAccessContainer_` -/
  table : Parent → Option Child
  hasChainedItem : Parent → Bool
  inMMContainer : Child → Bool
  refCount : Child → ℕ
  /-- How many of the references are handles -/
  handles : Child → ℕ
  numChainedParentItems : ℕ
  numChainedChildItems : ℕ
  /-- History: the calls that have returned, the last one first, and whether one of them has
  dereferenced the null pointer -/
  log : List (Call Parent Child × Result Child)
  nullDereferenced : Bool

namespace State

variable {Parent Child : Type} [DecidableEq Parent] [DecidableEq Child] (s : State Parent Child)
  (child : Child)

/-- The access container, as the keys are now -/
def config : Config Parent Child := ⟨1, fun _ => 0, s.key⟩

/-- `chainedItemAccessContainer_->insertOrReplace`, with the node that was replaced -/
def insertOrReplace : State Parent Child × Option Child :=
  match (Op.insertOrReplace child false).apply s.config s.table with
  | (table, .handle oldHead) => ({ s with table := table }, oldHead)
  | (table, _) => ({ s with table := table }, none)

/-- `chainedItemAccessContainer_->remove` -/
def remove : State Parent Child :=
  { s with table := ((Op.remove child).apply s.config s.table).1 }

def findChainedItem (parent : Parent) : Option Child := s.table parent

def isAccessible : Bool := s.table (s.key child) = some child

def setNext (next : Option Child) : State Parent Child :=
  { s with next := update s.next child next }

def markHasChainedItem (parent : Parent) : State Parent Child :=
  { s with hasChainedItem := update s.hasChainedItem parent true }

def unmarkHasChainedItem (parent : Parent) : State Parent Child :=
  { s with hasChainedItem := update s.hasChainedItem parent false }

def setInMMContainer (v : Bool) : State Parent Child :=
  { s with inMMContainer := update s.inMMContainer child v }

def incRef : State Parent Child :=
  { s with refCount := update s.refCount child (s.refCount child + 1) }

def decRef : State Parent Child :=
  { s with refCount := update s.refCount child (s.refCount child - 1) }

/-- A caller gets a handle. -/
def acquire : State Parent Child :=
  { s.incRef child with handles := update s.handles child (s.handles child + 1) }

/-- A handle goes. -/
def release : State Parent Child :=
  { s.decRef child with handles := update s.handles child (s.handles child - 1) }

def record (call : Call Parent Child) (res : Result Child) :
    State Parent Child :=
  { s with log := (call, res) :: s.log }

/-- The child becomes the head of the chain. `appendChain` throws if the child has a next one
already; the result says that it has not. -/
def linkHead : State Parent Child × Bool :=
  match s.insertOrReplace child with
  | (s, none) => (s, true)
  | (s, some oldHead) =>
      match s.next child with
      | some _ => (s, false)
      | none => (s.setNext child (some oldHead), true)

/-- The statistics, the mark and the reference of `addChainedItem` -/
def own (parent : Parent) (child : Child) : State Parent Child :=
  { (s.markHasChainedItem parent).incRef child with
    numChainedParentItems :=
      if s.hasChainedItem parent then s.numChainedParentItems else s.numChainedParentItems + 1
    numChainedChildItems := s.numChainedChildItems + 1 }

/-- The handle to the child is the call's own, and goes when it returns or throws. -/
def addChainedItem (parent : Parent) (child : Child) :
    State Parent Child × Result Child :=
  match s.linkHead child with
  | (s, false) => (s.release child, .threw)
  | (s, true) =>
      let s := s.own parent child
      if s.inMMContainer child then (s.release child, .threw)
      else ((s.setInMMContainer child true).release child, .done)

/-- The next child becomes the head of the chain, or the chain ends. -/
def unlinkHead (parent : Parent) (head : Child) : State Parent Child :=
  match s.next head with
  | some next => (s.insertOrReplace next).1
  | none =>
      { (s.remove head).unmarkHasChainedItem parent with
        numChainedParentItems := s.numChainedParentItems - 1 }

/-- The rest of `popChainedItem` -/
def disown (head : Child) : State Parent Child :=
  { ((s.setNext head none).setInMMContainer head false).decRef head with
    numChainedChildItems := s.numChainedChildItems - 1 }

def popChainedItem (parent : Parent) : State Parent Child × Result Child :=
  if s.hasChainedItem parent then
    match s.findChainedItem parent with
    | none => ({ s with nullDereferenced := true }, .threw)
    | some head => (((s.acquire head).unlinkHead parent head).disown head, .handle head)
  else (s, .threw)

variable [Fintype Child]

/-- `replaceInChainLocked`: the links -/
def replaceInChainLocked (s : State Parent Child) (oldItem newItem : Child) (parent : Parent) :
    State Parent Child :=
  match s.findChainedItem parent with
  | none => { s with nullDereferenced := true }
  | some head =>
      let s := if head = oldItem then (s.insertOrReplace newItem).1
        else
          match Chain.walk s.next (· = oldItem) (Fintype.card Child) (some head) (s.next head) with
          | (some prev, _) => s.setNext prev (some newItem)
          | (none, _) => s
      (s.setNext newItem (s.next oldItem)).setNext oldItem none

def replaceChainedItem (s : State Parent Child) (oldItem newItem : Child) (parent : Parent) :
    State Parent Child × Result Child :=
  if s.key oldItem ≠ s.key newItem ∨ s.key oldItem ≠ parent ∨ s.inMMContainer newItem ∨
      !s.inMMContainer oldItem then
    (s.release newItem, .threw)
  else
    let s := s.acquire oldItem
    let s := (s.setInMMContainer oldItem false).setInMMContainer newItem true
    let s := s.replaceInChainLocked oldItem newItem parent
    let s := (s.decRef oldItem).incRef newItem
    (s.release newItem, .handle oldItem)

/-- The loop of `transferChainLocked`. Nothing if `changeKey` throws. -/
def changeKeys (newParent : Parent) :
    ℕ → Option Child → State Parent Child → Option (State Parent Child)
  | 0, _, s => some s
  | _ + 1, none, s => some s
  | n + 1, some curr, s =>
      if s.isAccessible curr then none
      else changeKeys newParent n (s.next curr)
        { s with key := update s.key curr newParent }

/-- `transferChainLocked`; what comes after it in `transferChainAndReplace` is about the parents. -/
def transferChainAndReplace (s : State Parent Child) (parent newParent : Parent) :
    State Parent Child × Result Child :=
  if s.hasChainedItem newParent then (s, .threw)
  else
    match s.findChainedItem parent with
    | none => ({ s with nullDereferenced := true }, .threw)
    | some head =>
        let s := s.remove head
        match changeKeys newParent (Fintype.card Child) (some head) s with
        | none => (s, .threw)
        | some s =>
            let s := s.markHasChainedItem newParent
            match s.insertOrReplace head with
            | (s, some _) => (s, .threw)
            | (s, none) => (s.unmarkHasChainedItem parent, .done)

def run (s : State Parent Child) : Call Parent Child → State Parent Child × Result Child
  | .addChainedItem parent child => s.addChainedItem parent child
  | .popChainedItem parent => s.popChainedItem parent
  | .replaceChainedItem oldItem newItem parent => s.replaceChainedItem oldItem newItem parent
  | .transferChainAndReplace parent newParent => s.transferChainAndReplace parent newParent

/-- The chain that is found from a parent (`forEachChainedItem`) -/
def chain (s : State Parent Child) (parent : Parent) : List Child :=
  Chain.collect s.next (Fintype.card Child) (s.findChainedItem parent)

end State

inductive Label (Parent Child : Type) where
  /-- `allocateChainedItem`: a child that is not in use -/
  | allocate (parent : Parent) (child : Child)
  | acquire (child : Child)
  | release (child : Child)
  | call (call : Call Parent Child)

variable {Parent Child : Type}

/-- The child that a caller has to have a handle for -/
def Call.argument : Call Parent Child → Option Child
  | addChainedItem _ child => some child
  | replaceChainedItem _ newItem _ => some newItem
  | popChainedItem _ | transferChainAndReplace _ _ => none

variable [DecidableEq Parent] [DecidableEq Child] [Fintype Child]

def step (s : State Parent Child) : Label Parent Child → Option (State Parent Child)
  | .allocate parent child =>
      if s.refCount child = 0 then
        some ({ s with
          key := update s.key child parent
          next := update s.next child none
          inMMContainer := update s.inMMContainer child false }.acquire child)
      else none
  | .acquire child => if 0 < s.handles child then some (s.acquire child) else none
  | .release child => if 0 < s.handles child then some (s.release child) else none
  | .call call =>
      if ∀ child, call.argument = some child → 0 < s.handles child then
        let (s, res) := s.run call
        some (s.record call res)
      else none

/-- No child is in use. -/
def State.new (key : Child → Parent) : State Parent Child where
  key := key
  next _ := none
  table _ := none
  hasChainedItem _ := false
  inMMContainer _ := false
  refCount _ := 0
  handles _ := 0
  numChainedParentItems := 0
  numChainedChildItems := 0
  log := []
  nullDereferenced := false

end CacheLib.ChainedItems
