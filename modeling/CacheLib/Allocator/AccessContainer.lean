/-
The container of `ChainedHashTable.h` that the items of a cache are found in.

The hooks of the chains are in the nodes, and so is the mark that says whether a node is in the
container. What a call does under the lock of its bucket is a step. `insert` and `insertOrReplace` test
the mark before they take the lock, so they take two steps, and other calls may come between.

Whether the handle maker throws and whether a predicate holds is up to whoever calls. The history has
what each call was given and has returned, in the order of the steps at which it took effect.
-/
import Mathlib.Data.Fintype.Card
import CacheLib.Lib.Chain
import CacheLib.Lib.Run

set_option autoImplicit false

namespace CacheLib.AccessContainer

/-- The key of a node does not change while the node is in use. -/
structure Config (Key Node : Type) where
  numBuckets : ℕ
  getBucket : Key → Fin numBuckets
  getKey : Node → Key

variable {Key Node : Type} [DecidableEq Key] [DecidableEq Node] [Fintype Node]

/-- `ChainedHashTable::Impl`: the heads of the buckets and the hooks of the nodes -/
structure Impl (cfg : Config Key Node) where
  hashTable : Fin cfg.numBuckets → Option Node
  hashNext : Node → Option Node

namespace Impl

variable {cfg : Config Key Node} (t : Impl cfg) (node : Node)

/-- The loop that looks for a key: the node before the one with the key, and that one. There are no
more rounds than nodes. -/
def search (key : Key) (bucket : Fin cfg.numBuckets) : Option Node × Option Node :=
  Chain.walk t.hashNext (fun curr => cfg.getKey curr = key) (Fintype.card Node) none
    (t.hashTable bucket)

def findInBucket (key : Key) (bucket : Fin cfg.numBuckets) : Option Node :=
  (t.search key bucket).2

def findPrevInBucket (bucket : Fin cfg.numBuckets) : Option Node :=
  (t.search (cfg.getKey node) bucket).1

def setHashNext (next : Option Node) : Impl cfg :=
  { t with hashNext := Function.update t.hashNext node next }

def setHashTable (bucket : Fin cfg.numBuckets) (head : Option Node) : Impl cfg :=
  { t with hashTable := Function.update t.hashTable bucket head }

/-- The link that leads on from the node `prev`, or from the bucket if there is none before -/
def setNextOf (prev : Option Node) (bucket : Fin cfg.numBuckets)
    (next : Option Node) : Impl cfg :=
  match prev with
  | some prev => t.setHashNext prev next
  | none => t.setHashTable bucket next

def insertAtHead (bucket : Fin cfg.numBuckets) : Impl cfg :=
  let head := t.hashTable bucket
  (t.setHashTable bucket (some node)).setHashNext node head

def insertInBucket (bucket : Fin cfg.numBuckets) : Impl cfg × Bool :=
  match t.findInBucket (cfg.getKey node) bucket with
  | some _ => (t, false)
  | none => (t.insertAtHead node bucket, true)

def insertOrReplaceInBucket (bucket : Fin cfg.numBuckets) :
    Impl cfg × Option Node :=
  match t.search (cfg.getKey node) bucket with
  | (_, none) => (t.insertAtHead node bucket, none)
  | (prev, some curr) =>
      let t := t.setNextOf prev bucket (some node)
      (t.setHashNext node (t.hashNext curr), some curr)

def removeFromBucket (bucket : Fin cfg.numBuckets) : Impl cfg :=
  t.setNextOf (t.findPrevInBucket node bucket) bucket (t.hashNext node)

end Impl

inductive Op (Key Node : Type) where
  | insert (node : Node)
  | insertOrReplace (node : Node) (throws : Bool)
  | replaceIf (oldNode newNode : Node) (predicate : Bool)
  | remove (node : Node)
  | removeIf (node : Node) (predicate throws : Bool)
  | find (key : Key) (throws : Bool)

inductive Result (Node : Type) where
  | done (success : Bool)
  | handle (node : Option Node)
  | threw
  deriving DecidableEq

/-- `handleMaker_`, for a node or for the null pointer -/
def handleMaker (throws : Bool) (node : Option Node) : Result Node :=
  if throws then .threw else .handle node

/-- A call that has found its node not accessible, and has not got the lock -/
inductive Tested (Node : Type) where
  | insert (node : Node)
  | insertOrReplace (node : Node)

structure State (cfg : Config Key Node) extends Impl cfg where
  accessible : Node → Bool
  numKeys : ℕ
  tested : List (Tested Node)
  /-- History: the calls that have taken effect, the last one first -/
  log : List (Op Key Node × Result Node)
  /-- History: the null pointer was dereferenced. -/
  nullDereferenced : Bool

namespace State

variable {cfg : Config Key Node} (s : State cfg) (node : Node)

def new : State cfg where
  hashTable _ := none
  hashNext _ := none
  accessible _ := false
  numKeys := 0
  tested := []
  log := []
  nullDereferenced := false

def record (op : Op Key Node) (res : Result Node) : State cfg :=
  { s with log := (op, res) :: s.log }

def markAccessible : State cfg :=
  { s with accessible := Function.update s.accessible node true }

def unmarkAccessible : State cfg :=
  { s with accessible := Function.update s.accessible node false }

/-- `insert`, with the lock -/
def insert : State cfg :=
  let bucket := cfg.getBucket (cfg.getKey node)
  match s.toImpl.insertInBucket node bucket with
  | (t, true) =>
      let s := { s with toImpl := t }
      { s.markAccessible node with numKeys := s.numKeys + 1 }.record (.insert node) (.done true)
  | (t, false) => { s with toImpl := t }.record (.insert node) (.done false)

/-- `insertOrReplace`, with the lock -/
def insertOrReplace (throws : Bool) : State cfg :=
  let bucket := cfg.getBucket (cfg.getKey node)
  let (t, oldNode) := s.toImpl.insertOrReplaceInBucket node bucket
  let s := { s with toImpl := t }
  if throws then
    match oldNode with
    | some oldNode =>
        -- The element is put back.
        { s with toImpl := (s.toImpl.insertOrReplaceInBucket oldNode bucket).1 }.record
          (.insertOrReplace node throws) .threw
    | none => { s with nullDereferenced := true }.record (.insertOrReplace node throws) .threw
  else
    let s := s.markAccessible node
    match oldNode with
    | some oldNode =>
        (s.unmarkAccessible oldNode).record (.insertOrReplace node throws) (.handle (some oldNode))
    | none =>
        { s with numKeys := s.numKeys + 1 }.record (.insertOrReplace node throws) (.handle none)

def replaceIf (oldNode newNode : Node) (predicate : Bool) : State cfg :=
  let bucket := cfg.getBucket (cfg.getKey newNode)
  if s.accessible oldNode && predicate then
    let s := { s with toImpl := (s.toImpl.insertOrReplaceInBucket newNode bucket).1 }
    ((s.unmarkAccessible oldNode).markAccessible newNode).record
      (.replaceIf oldNode newNode predicate) (.done true)
  else s.record (.replaceIf oldNode newNode predicate) (.done false)

def takeOut : State cfg :=
  let bucket := cfg.getBucket (cfg.getKey node)
  let s := { s with toImpl := s.toImpl.removeFromBucket node bucket }
  { s.unmarkAccessible node with numKeys := s.numKeys - 1 }

def remove : State cfg :=
  if s.accessible node then (s.takeOut node).record (.remove node) (.done true)
  else s.record (.remove node) (.done false)

def removeIf (predicate throws : Bool) : State cfg :=
  if s.accessible node && predicate then
    if throws then s.record (.removeIf node predicate throws) .threw
    else (s.takeOut node).record (.removeIf node predicate throws) (.handle (some node))
  else s.record (.removeIf node predicate throws) (handleMaker throws none)

def find (key : Key) (throws : Bool) : State cfg :=
  s.record (.find key throws)
    (handleMaker throws (s.toImpl.findInBucket key (cfg.getBucket key)))

def locked (throws : Bool) : Tested Node → State cfg
  | .insert node => s.insert node
  | .insertOrReplace node => s.insertOrReplace node throws

end State

/-- The steps. `insert` and `insertOrReplace` are the test of the mark, `locked` the rest of such a
call. -/
inductive Label (Key Node : Type) where
  | insert (node : Node)
  | insertOrReplace (node : Node) (throws : Bool)
  | locked (i : ℕ) (throws : Bool)
  | replaceIf (oldNode newNode : Node) (predicate : Bool)
  | remove (node : Node)
  | removeIf (node : Node) (predicate throws : Bool)
  | find (key : Key) (throws : Bool)

def step (cfg : Config Key Node) (s : State cfg) : Label Key Node → Option (State cfg)
  | .insert node =>
      if s.accessible node then some (s.record (.insert node) (.done false))
      else some { s with tested := .insert node :: s.tested }
  | .insertOrReplace node throws =>
      if s.accessible node then
        some (s.record (.insertOrReplace node throws) (handleMaker throws none))
      else some { s with tested := .insertOrReplace node :: s.tested }
  | .locked i throws =>
      s.tested[i]?.map fun call => { s.locked throws call with tested := s.tested.eraseIdx i }
  | .replaceIf oldNode newNode predicate => some (s.replaceIf oldNode newNode predicate)
  | .remove node => some (s.remove node)
  | .removeIf node predicate throws => some (s.removeIf node predicate throws)
  | .find key throws => some (s.find key throws)

end CacheLib.AccessContainer
