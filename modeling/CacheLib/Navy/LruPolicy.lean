/-
The LRU policy for regions (`cachelib/navy/block_cache/LruPolicy.cpp`).

The list is kept in an array: the entry of a region has the indices of the regions before and
behind it, and the largest index stands for none. The array grows with the regions that are asked
for. Read as pointers, the entries are the links of a `DList`, and `unlink` and `linkAtHead` do to
them what `DList` does, so what they mean is taken over from there.

Whether a region is in the list is not recorded: `inList` looks whether one of its two links is
set. This is wrong for one list only, that of a single region. There `inList` says no, and yet
nothing goes wrong: `touch` leaves the region where it is, and `track` calls `linkAtHead`, which
does nothing for the head.
-/
import CacheLib.Allocator.DList
import CacheLib.Lib.Run

set_option autoImplicit false

namespace CacheLib.Navy

namespace LruPolicy

def kInvalidIndex : UInt32 := 0xffffffff

/-- A `RegionId` that is valid -/
structure RegionId where
  index : UInt32
  valid : index ≠ kInvalidIndex
  deriving DecidableEq

structure ListNode where
  prev : UInt32 := kInvalidIndex
  next : UInt32 := kInvalidIndex
  creationTime : ℕ := 0
  lastUpdateTime : ℕ := 0
  hits : UInt32 := 0

def ListNode.inList (node : ListNode) : Bool :=
  node.prev != kInvalidIndex || node.next != kInvalidIndex

end LruPolicy

open LruPolicy in
structure LruPolicy where
  array : List ListNode := []
  head : UInt32 := kInvalidIndex
  tail : UInt32 := kInvalidIndex

namespace LruPolicy

open LinkedList Links Transition List

/-! ## The policy -/

variable (p : LruPolicy)

/-- `array_[i]` -/
def node (i : UInt32) : Option ListNode := p.array[i.toNat]?

/-- A write to `array_[i]`. There is no result where the array has no such entry. -/
def update (i : UInt32) (f : ListNode → ListNode) : Option LruPolicy :=
  if i.toNat < p.array.length then some { p with array := p.array.modify i.toNat f } else none

/-- `std::vector::resize` -/
def resize (array : List ListNode) (n : ℕ) : List ListNode :=
  array.take n ++ replicate (n - array.length) ({} : ListNode)

def grow (i : UInt32) : LruPolicy :=
  if p.array.length ≤ i.toNat then { p with array := resize p.array (i + 1).toNat } else p

/-- The first half of `unlink`: what is behind the node -/
def unlinkNext (i : UInt32) (node : ListNode) : Option LruPolicy :=
  if p.tail = i then some { p with tail := node.prev }
  else p.update node.next fun next => { next with prev := node.prev }

/-- The second half: what is before it -/
def unlinkPrev (i : UInt32) (node : ListNode) : Option LruPolicy :=
  if p.head = i then some { p with head := node.next }
  else p.update node.prev fun prev => { prev with next := node.next }

def unlink (i : UInt32) : Option LruPolicy := do
  -- a reference in the code, but the two halves write to its neighbours only
  let node ← p.node i
  let p ← p.unlinkNext i node
  let p ← p.unlinkPrev i node
  let p ← p.update i fun node => { node with next := kInvalidIndex }
  p.update i fun node => { node with prev := kInvalidIndex }

/-- The first statement of `linkAtHead` -/
def linkHead (i : UInt32) : Option LruPolicy :=
  if p.head ≠ kInvalidIndex then p.update p.head fun node => { node with prev := i } else some p

def linkAtHead (i : UInt32) : Option LruPolicy :=
  if i ≠ p.head then do
    let linked ← p.linkHead i
    let linked ← linked.update i fun node => { node with next := p.head }
    some { linked with head := i, tail := if p.tail = kInvalidIndex then i else p.tail }
  else some p

def touch (rid : RegionId) (now : ℕ) : Option LruPolicy := do
  let i := rid.index
  let p := p.grow i
  let node ← p.node i
  if node.inList then
    let p ← p.update i fun node => { node with hits := node.hits + 1, lastUpdateTime := now }
    let p ← p.unlink i
    p.linkAtHead i
  else some p

def track (rid : RegionId) (now : ℕ) : Option LruPolicy := do
  let i := rid.index
  let p := p.grow i
  let p ← p.update i fun node => { node with hits := 0, creationTime := now, lastUpdateTime := now }
  let node ← p.node i
  if !node.inList then p.linkAtHead i else some p

/-- `evict`; the invalid region id is none. -/
def evict : Option (LruPolicy × Option RegionId) :=
  if h : p.tail = kInvalidIndex then some (p, none)
  else do
    -- read for the statistics
    let _ ← p.node p.tail
    let evicted ← p.unlink p.tail
    some (evicted, some ⟨p.tail, h⟩)

def reset (_p : LruPolicy) : LruPolicy := {}

/-! ## The array as links -/

def decode (i : UInt32) : Option RegionId :=
  if h : i = kInvalidIndex then none else some ⟨i, h⟩

def links : Links RegionId where
  next x := (p.node x.index).bind fun node => decode node.next
  prev x := (p.node x.index).bind fun node => decode node.prev

def dlist (size : ℕ) : DList RegionId := ⟨decode p.head, decode p.tail, size⟩

def InRange (x : RegionId) : Prop := x.index.toNat < p.array.length

variable {p p' : LruPolicy} {x y : RegionId} {l : List RegionId} {i : UInt32} {node : ListNode}
  {f : ListNode → ListNode}

@[simp] theorem decode_index (x : RegionId) : decode x.index = some x := dif_neg x.valid

theorem decode_eq_none : decode i = none ↔ i = kInvalidIndex := by
  unfold decode
  split_ifs with h <;> simp [h]

theorem decode_eq_some : decode i = some x ↔ i = x.index := by
  constructor
  · intro h
    unfold decode at h
    split_ifs at h
    rw [← Option.some.inj h]
  · rintro rfl
    exact decode_index x

theorem index_ne (h : y ≠ x) : x.index.toNat ≠ y.index.toNat := by
  obtain ⟨i, _⟩ := x
  obtain ⟨j, _⟩ := y
  intro heq
  obtain rfl := UInt32.toNat_inj.mp heq
  exact h rfl

theorem links_eq (h : p.node x.index = some node) :
    p.links.next x = decode node.next ∧ p.links.prev x = decode node.prev := by
  simp only [links, h, Option.bind_some, and_self]

theorem InRange.exists_node (h : InRange p x) : ∃ node, p.node x.index = some node :=
  ⟨_, getElem?_eq_getElem h⟩

/-- The result of `update` -/
def updated (p : LruPolicy) (x : RegionId) (f : ListNode → ListNode) : LruPolicy :=
  { p with array := p.array.modify x.index.toNat f }

theorem InRange.update (h : InRange p x) (f : ListNode → ListNode) :
    p.update x.index f = some (p.updated x f) := if_pos h

@[simp] theorem inRange_updated : InRange (p.updated x f) y ↔ InRange p y := by
  unfold InRange updated
  rw [length_modify]

theorem links_updated (h : p.node x.index = some node) (f : ListNode → ListNode) :
    (p.updated x f).links = ⟨Function.update p.links.next x (decode (f node).next),
      Function.update p.links.prev x (decode (f node).prev)⟩ := by
  have hself : (p.updated x f).node x.index = some (f node) := by
    have hmap : (p.updated x f).node x.index = (p.node x.index).map f :=
      getElem?_modify_eq f _ _
    rw [hmap, h]
    rfl
  have hother : ∀ y, y ≠ x → (p.updated x f).node y.index = p.node y.index := fun y hy =>
    getElem?_modify_ne _ _ (index_ne hy)
  unfold links
  congr 1
  all_goals
    funext y
    by_cases hy : y = x
    · subst hy
      rw [hself, Function.update_self]
      rfl
    · rw [hother y hy, Function.update_of_ne hy]

theorem links_updated_next (h : InRange p x) (v : UInt32) :
    (p.updated x fun node => { node with next := v }).links = p.links.setNext x (decode v) := by
  obtain ⟨node, hnode⟩ := h.exists_node
  rw [links_updated hnode, ← (links_eq hnode).2, Function.update_eq_self]
  rfl

theorem links_updated_prev (h : InRange p x) (v : UInt32) :
    (p.updated x fun node => { node with prev := v }).links = p.links.setPrev x (decode v) := by
  obtain ⟨node, hnode⟩ := h.exists_node
  rw [links_updated hnode, ← (links_eq hnode).1, Function.update_eq_self]
  rfl

/-- The other fields of an entry are no links. -/
theorem links_updated_of_eq (h : InRange p x)
    (hf : ∀ node, (f node).next = node.next ∧ (f node).prev = node.prev) :
    (p.updated x f).links = p.links := by
  obtain ⟨node, hnode⟩ := h.exists_node
  obtain ⟨hnext, hprev⟩ := links_eq hnode
  rw [links_updated hnode, (hf node).1, (hf node).2, ← hnext, ← hprev, Function.update_eq_self,
    Function.update_eq_self]

/-! ### Growing -/

/-- The index of a valid region has a successor. -/
theorem toNat_index_succ (x : RegionId) : (x.index + 1).toNat = x.index.toNat + 1 := by
  have hne : x.index.toNat ≠ 2 ^ 32 - 1 := fun heq => x.valid (UInt32.toNat_inj.mp heq)
  have hlt := x.index.toNat_lt
  rw [UInt32.toNat_add]
  show (x.index.toNat + 1) % 2 ^ 32 = _
  exact Nat.mod_eq_of_lt (by omega)

theorem array_grow (p : LruPolicy) (x : RegionId) : ∃ more,
    (p.grow x.index).array = p.array ++ replicate more ({} : ListNode) ∧
      x.index.toNat < p.array.length + more := by
  unfold grow
  split_ifs with h
  · refine ⟨x.index.toNat + 1 - p.array.length, ?_, by omega⟩
    rw [resize, toNat_index_succ, take_of_length_le (by omega)]
  · exact ⟨0, by simp, by omega⟩

theorem inRange_grow (p : LruPolicy) (x : RegionId) :
    InRange (p.grow x.index) x ∧ ∀ y, InRange p y → InRange (p.grow x.index) y := by
  obtain ⟨more, harray, hmore⟩ := array_grow p x
  unfold InRange
  rw [harray, length_append, length_replicate]
  exact ⟨hmore, fun y hy => by omega⟩

/-- A longer array has the same links. -/
theorem links_grow (p : LruPolicy) (x : RegionId) : (p.grow x.index).links = p.links := by
  obtain ⟨more, harray, -⟩ := array_grow p x
  have hnode : ∀ i, (p.grow x.index).node i = p.node i ∨
      p.node i = none ∧ (p.grow x.index).node i = some {} := by
    intro i
    unfold LruPolicy.node
    rw [harray, getElem?_append, getElem?_replicate]
    split_ifs with hold hnew
    · exact Or.inl rfl
    · exact Or.inr ⟨getElem?_eq_none (Nat.not_lt.mp hold), rfl⟩
    · exact Or.inl (getElem?_eq_none (Nat.not_lt.mp hold)).symm
  unfold links
  congr 1
  all_goals
    funext y
    rcases hnode y.index with hsame | ⟨hnone, hnew⟩
    · rw [hsame]
    · rw [hnone, hnew]
      rfl

/-! ## What the array represents -/

/-- The links in the array are those of a list with the regions `l`. -/
structure Represents (p : LruPolicy) (l : List RegionId) : Prop where
  holds : (p.dlist l.length).Holds p.links l
  inRange : ∀ x ∈ l, InRange p x
  /-- a region that is not in the list has no links -/
  fresh : ∀ x ∉ l, p.links.next x = none ∧ p.links.prev x = none

theorem represents_empty : Represents {} [] :=
  ⟨⟨rfl, rfl, rfl, trivial, .nil⟩, by simp, fun _ _ => ⟨rfl, rfl⟩⟩

namespace Represents

variable (h : Represents p l)

include h

/-- What is behind the node is linked to what is before it. -/
theorem unlinkNext (hx : x ∈ l) (hnode : p.node x.index = some node) :
    ∃ p', p.unlinkNext x.index node = some p' ∧ p'.head = p.head ∧
      decode p'.tail = (if decode p.tail = some x then p.links.prev x else decode p.tail) ∧
        p'.links = p.links.setPrevOf (p.links.next x) (p.links.prev x) ∧
          ∀ y, InRange p' y ↔ InRange p y := by
  obtain ⟨hnext, hprev⟩ := links_eq hnode
  have hlast : p.links.next x = none ↔ decode p.tail = some x := h.holds.next_eq_none_iff hx
  have htail : p.tail = x.index ↔ p.links.next x = none := by rw [hlast, decode_eq_some]
  unfold LruPolicy.unlinkNext
  by_cases hend : p.links.next x = none
  · rw [if_pos (htail.mpr hend)]
    refine ⟨{ p with tail := node.prev }, rfl, rfl, ?_, ?_, fun _ => Iff.rfl⟩
    · rw [if_pos (hlast.mp hend), hprev]
    · rw [hend]
      rfl
  · obtain ⟨z, hz⟩ := Option.ne_none_iff_exists'.mp hend
    have hzRange := h.inRange z (h.holds.next_mem hx hz)
    rw [hnext, decode_eq_some] at hz
    rw [if_neg fun heq => hend (htail.mp heq), hz, hzRange.update]
    refine ⟨_, rfl, rfl, ?_, ?_, fun _ => inRange_updated⟩
    · rw [if_neg fun heq => hend (hlast.mpr heq)]
      rfl
    · rw [links_updated_prev hzRange, hnext, hz, decode_index, hprev]
      rfl

/-- What is before the node is linked to what is behind it. -/
theorem unlinkPrev (hx : x ∈ l) (hnode : p.node x.index = some node)
    (hhead : p'.head = p.head) (hrange : ∀ y, InRange p' y ↔ InRange p y) :
    ∃ p'', p'.unlinkPrev x.index node = some p'' ∧ p''.tail = p'.tail ∧
      decode p''.head = (if decode p.head = some x then p.links.next x else decode p.head) ∧
        p''.links = p'.links.setNextOf (p.links.prev x) (p.links.next x) ∧
          ∀ y, InRange p'' y ↔ InRange p y := by
  obtain ⟨hnext, hprev⟩ := links_eq hnode
  have hfirst : p.links.prev x = none ↔ decode p.head = some x := h.holds.prev_eq_none_iff hx
  have hstart : p'.head = x.index ↔ p.links.prev x = none := by rw [hfirst, hhead, decode_eq_some]
  unfold LruPolicy.unlinkPrev
  by_cases hend : p.links.prev x = none
  · rw [if_pos (hstart.mpr hend)]
    refine ⟨{ p' with head := node.next }, rfl, rfl, ?_, ?_, hrange⟩
    · rw [if_pos (hfirst.mp hend), hnext]
    · rw [hend]
      rfl
  · obtain ⟨z, hz⟩ := Option.ne_none_iff_exists'.mp hend
    have hzRange := (hrange z).mpr (h.inRange z (h.holds.prev_mem hx hz))
    rw [hprev, decode_eq_some] at hz
    rw [if_neg fun heq => hend (hstart.mp heq), hz, hzRange.update]
    refine ⟨_, rfl, rfl, ?_, ?_, fun y => inRange_updated.trans (hrange y)⟩
    · rw [if_neg fun heq => hend (hfirst.mpr heq), ← hhead]
      rfl
    · rw [links_updated_next hzRange, hprev, hz, decode_index, hnext]
      rfl

/-- **`unlink` is that of `DList`.** -/
theorem unlink (hx : x ∈ l) :
    ∃ p', p.unlink x.index = some p' ∧ Represents p' (l.erase x) ∧
      ∀ y, InRange p' y ↔ InRange p y := by
  have hrange := h.inRange x hx
  obtain ⟨node, hnode⟩ := hrange.exists_node
  obtain ⟨p₁, hp₁, hhead₁, htail₁, hlinks₁, hrange₁⟩ := h.unlinkNext hx hnode
  obtain ⟨p₂, hp₂, htail₂, hhead₂, hlinks₂, hrange₂⟩ := h.unlinkPrev hx hnode hhead₁ hrange₁
  let p₃ := p₂.updated x fun node => { node with next := kInvalidIndex }
  let p₄ := p₃.updated x fun node => { node with prev := kInvalidIndex }
  have hrange₂' : InRange p₂ x := (hrange₂ x).mpr hrange
  have hrange₃ : InRange p₃ x := inRange_updated.mpr hrange₂'
  have hlinks₄ : p₄.links = (p₂.links.setNext x none).setPrev x none := by
    rw [links_updated_prev hrange₃, links_updated_next hrange₂']
    rfl
  have hremove : (p₄.dlist (l.erase x).length, p₄.links) = (p.dlist l.length).remove p.links x := by
    refine Prod.ext ?_ ?_
    · show DList.mk (decode p₂.head) (decode p₂.tail) _ = _
      rw [hhead₂, htail₂, htail₁, length_erase_of_mem hx]
      rfl
    · show p₄.links = _
      rw [hlinks₄, hlinks₂, hlinks₁]
      simp only [DList.remove, DList.unlink, setNextOf_prev]
      cases p.links.prev x <;> cases p.links.next x <;> rfl
  have hbecomes := h.holds.remove_of_mem hx
  rw [← hremove] at hbecomes
  have hrange₄ : ∀ y, InRange p₄ y ↔ InRange p y := fun y =>
    inRange_updated.trans (inRange_updated.trans (hrange₂ y))
  refine ⟨p₄, ?_, ⟨hbecomes.holds, ?_, ?_⟩, hrange₄⟩
  · simp only [LruPolicy.unlink, hnode, hp₁, hp₂, Option.bind_eq_bind, Option.bind_some]
    rw [hrange₂'.update, Option.bind_some, hrange₃.update]
  · intro y hy
    exact (hrange₄ y).mpr (h.inRange y (mem_of_mem_erase hy))
  · intro y hy
    by_cases hyx : y = x
    · subst hyx
      rw [hlinks₄]
      exact ⟨setNext_next_self, setPrev_prev_self⟩
    · have hyl : y ∉ l := fun hmem => hy ((mem_erase_of_ne hyx).mpr hmem)
      obtain ⟨hnext, hprev⟩ := hbecomes.agree y hyl hy
      rw [hnext, hprev]
      exact h.fresh y hyl

theorem linkHead (x : RegionId) :
    ∃ p', p.linkHead x.index = some p' ∧
      p'.links = p.links.setPrevOf (decode p.head) (some x) ∧ ∀ y, InRange p' y ↔ InRange p y := by
  unfold LruPolicy.linkHead
  by_cases hnone : p.head = kInvalidIndex
  · rw [if_neg (not_not.mpr hnone), decode_eq_none.mpr hnone]
    exact ⟨p, rfl, rfl, fun _ => Iff.rfl⟩
  · obtain ⟨z, hz⟩ : ∃ z : RegionId, p.head = z.index := ⟨⟨p.head, hnone⟩, rfl⟩
    have hzRange : InRange p z := by
      have hhead : decode p.head = l.head? := h.holds.head_eq
      rw [hz, decode_index] at hhead
      exact h.inRange z (mem_of_head? hhead.symm)
    rw [if_pos hnone, hz, hzRange.update, decode_index]
    refine ⟨_, rfl, ?_, fun _ => inRange_updated⟩
    rw [links_updated_prev hzRange, decode_index]
    rfl

/-- **`linkAtHead` is that of `DList`**, for a region that has no links yet. -/
theorem linkAtHead (hx : x ∉ l) (hrange : InRange p x) :
    ∃ p', p.linkAtHead x.index = some p' ∧ Represents p' (x :: l) := by
  have hne : x.index ≠ p.head := by
    intro heq
    have hhead : decode p.head = l.head? := h.holds.head_eq
    rw [← heq, decode_index] at hhead
    exact hx (mem_of_head? hhead.symm)
  obtain ⟨p₁, hp₁, hlinks₁, hrange₁⟩ := h.linkHead x
  let p₂ := p₁.updated x fun node => { node with next := p.head }
  let p₃ : LruPolicy :=
    { p₂ with head := x.index, tail := if p.tail = kInvalidIndex then x.index else p.tail }
  have hlinks₃ : p₃.links = p₁.links.setNext x (decode p.head) :=
    links_updated_next ((hrange₁ x).mpr hrange) p.head
  have hlink : (p₃.dlist (x :: l).length, p₃.links) = (p.dlist l.length).linkAtHead p.links x := by
    refine Prod.ext ?_ ?_
    · show DList.mk (decode x.index) (decode (if p.tail = kInvalidIndex then x.index else p.tail)) _ =
        DList.mk (some x) (if decode p.tail = none then some x else decode p.tail) _
      simp only [decode_eq_none, apply_ite decode, decode_index]
      rfl
    · -- the link to the node before it is none already
      have hprev : p.links.setPrev x none = p.links := by
        rw [setPrev, ← (h.fresh x hx).2, Function.update_eq_self]
      have hcomm : (p.links.setNext x (decode p.head)).setPrev x none =
          (p.links.setPrev x none).setNext x (decode p.head) := rfl
      show p₃.links =
        ((p.links.setNext x (decode p.head)).setPrev x none).setPrevOf (decode p.head) (some x)
      rw [hlinks₃, hlinks₁, hcomm, hprev]
      cases decode p.head <;> rfl
  have hbecomes := h.holds.linkAtHead hx
  rw [← hlink] at hbecomes
  have hrange₃ : ∀ y, InRange p₃ y ↔ InRange p y := fun y => inRange_updated.trans (hrange₁ y)
  refine ⟨p₃, ?_, hbecomes.holds, ?_, ?_⟩
  · simp only [LruPolicy.linkAtHead, if_pos hne, hp₁, Option.bind_eq_bind, Option.bind_some]
    rw [((hrange₁ x).mpr hrange).update]
    rfl
  · rintro y (_ | ⟨_, hy⟩)
    · exact (hrange₃ _).mpr hrange
    · exact (hrange₃ y).mpr (h.inRange y hy)
  · intro y hy
    have hyl : y ∉ l := fun hmem => hy (mem_cons_of_mem x hmem)
    obtain ⟨hnext, hprev⟩ := hbecomes.agree y hyl hy
    rw [hnext, hprev]
    exact h.fresh y hyl

theorem grow (x : RegionId) :
    Represents (p.grow x.index) l ∧ InRange (p.grow x.index) x := by
  obtain ⟨hx, hmono⟩ := inRange_grow p x
  have hends : (p.grow x.index).head = p.head ∧ (p.grow x.index).tail = p.tail := by
    unfold LruPolicy.grow
    split_ifs <;> exact ⟨rfl, rfl⟩
  refine ⟨⟨?_, fun y hy => hmono y (h.inRange y hy), ?_⟩, hx⟩
  · rw [links_grow, dlist, hends.1, hends.2]
    exact h.holds
  · rw [links_grow]
    exact h.fresh

theorem update (hx : InRange p x)
    (hf : ∀ node, (f node).next = node.next ∧ (f node).prev = node.prev) :
    ∃ p', p.update x.index f = some p' ∧ Represents p' l ∧ InRange p' x := by
  have hlinks := links_updated_of_eq hx hf
  refine ⟨p.updated x f, hx.update f, ⟨?_, fun y hy => inRange_updated.mpr (h.inRange y hy), ?_⟩,
    inRange_updated.mpr hx⟩
  · rw [hlinks]
    exact h.holds
  · rw [hlinks]
    exact h.fresh

/-- **What `inList` can tell.** A region with a link is in the list. One without is not, or it is the
only one. -/
theorem inList (hx : InRange p x) :
    ∃ node, p.node x.index = some node ∧ ((node.inList = true ∧ x ∈ l) ∨
      (node.inList = false ∧ (x ∉ l ∨ l = [x]))) := by
  obtain ⟨node, hnode⟩ := hx.exists_node
  obtain ⟨hnext, hprev⟩ := links_eq hnode
  refine ⟨node, hnode, ?_⟩
  cases hin : node.inList with
  | true =>
      refine Or.inl ⟨rfl, ?_⟩
      by_contra hmem
      obtain ⟨hnextNone, hprevNone⟩ := h.fresh x hmem
      rw [hnext, decode_eq_none] at hnextNone
      rw [hprev, decode_eq_none] at hprevNone
      simp [ListNode.inList, hnextNone, hprevNone] at hin
  | false =>
      refine Or.inr ⟨rfl, ?_⟩
      by_cases hmem : x ∈ l
      · have hnone : node.prev = kInvalidIndex ∧ node.next = kInvalidIndex := by
          simpa [ListNode.inList] using hin
        rw [hnone.2, decode_eq_none.mpr rfl] at hnext
        rw [hnone.1, decode_eq_none.mpr rfl] at hprev
        obtain ⟨ys, zs, rfl⟩ := append_of_mem hmem
        obtain ⟨hys, hzs, -⟩ := h.holds.of_append
        rw [hprev] at hys
        rw [hnext] at hzs
        right
        rw [getLast?_eq_none_iff.mp hys.symm, head?_eq_none_iff.mp hzs.symm]
        rfl
      · exact Or.inl hmem

end Represents

/-! ## The LRU list -/

/-- What the policy is for: the regions, the last used one first -/
abbrev Lru := List RegionId

namespace Lru

def track (l : Lru) (rid : RegionId) : Lru := if rid ∈ l then l else rid :: l

def touch (l : Lru) (rid : RegionId) : Lru := if rid ∈ l then rid :: l.erase rid else l

def evict (l : Lru) : Lru × Option RegionId := (l.dropLast, l.getLast?)

end Lru

namespace Represents

variable (h : Represents p l)

include h

theorem touch (x : RegionId) (now : ℕ) :
    ∃ p', p.touch x now = some p' ∧ Represents p' (Lru.touch l x) := by
  obtain ⟨hgrow, hx⟩ := h.grow x
  obtain ⟨node, hnode, hin⟩ := hgrow.inList hx
  simp only [LruPolicy.touch, hnode, Option.bind_eq_bind, Option.bind_some]
  rcases hin with ⟨hin, hmem⟩ | ⟨hin, hout⟩
  · obtain ⟨p₁, hp₁, hupdate, hx₁⟩ := hgrow.update hx (f := fun node =>
      { node with hits := node.hits + 1, lastUpdateTime := now }) fun _ => ⟨rfl, rfl⟩
    obtain ⟨p₂, hp₂, hunlink, hrange⟩ := hupdate.unlink hmem
    have hnot : x ∉ l.erase x := by
      rw [h.holds.nodup.mem_erase_iff]
      exact fun hmem => hmem.1 rfl
    obtain ⟨p₃, hp₃, hlink⟩ := hunlink.linkAtHead hnot ((hrange x).mpr hx₁)
    rw [if_pos hin, hp₁, Option.bind_some, hp₂, Option.bind_some, hp₃, Lru.touch, if_pos hmem]
    exact ⟨p₃, rfl, hlink⟩
  · rw [hin, if_neg Bool.false_ne_true]
    refine ⟨_, rfl, ?_⟩
    rcases hout with hout | rfl
    · rwa [Lru.touch, if_neg hout]
    · -- the only region is at the head
      simpa [Lru.touch] using hgrow

theorem track (x : RegionId) (now : ℕ) :
    ∃ p', p.track x now = some p' ∧ Represents p' (Lru.track l x) := by
  obtain ⟨hgrow, hx⟩ := h.grow x
  obtain ⟨p₁, hp₁, hupdate, hx₁⟩ := hgrow.update hx (f := fun node =>
    { node with hits := 0, creationTime := now, lastUpdateTime := now }) fun _ => ⟨rfl, rfl⟩
  obtain ⟨node, hnode, hin⟩ := hupdate.inList hx₁
  simp only [LruPolicy.track, hp₁, hnode, Option.bind_eq_bind, Option.bind_some]
  rcases hin with ⟨hin, hmem⟩ | ⟨hin, hout⟩
  · rw [hin, Lru.track, if_pos hmem]
    exact ⟨p₁, rfl, hupdate⟩
  · rw [hin, if_pos (by rfl)]
    rcases hout with hout | rfl
    · rw [Lru.track, if_neg hout]
      exact hupdate.linkAtHead hout hx₁
    · -- the only region is the head, for which nothing is done
      have hhead : x.index = p₁.head := (decode_eq_some.mp hupdate.holds.head_eq).symm
      rw [LruPolicy.linkAtHead, if_neg (not_not.mpr hhead), Lru.track, if_pos mem_cons_self]
      exact ⟨p₁, rfl, hupdate⟩

theorem evict :
    ∃ p', p.evict = some (p', (Lru.evict l).2) ∧ Represents p' (Lru.evict l).1 := by
  have htail : decode p.tail = l.getLast? := h.holds.tail_eq
  unfold LruPolicy.evict Lru.evict
  by_cases hnone : p.tail = kInvalidIndex
  · rw [decode_eq_none.mpr hnone] at htail
    obtain rfl := getLast?_eq_none_iff.mp htail.symm
    rw [dif_pos hnone]
    exact ⟨p, rfl, h⟩
  · obtain ⟨ys, y, rfl⟩ : ∃ ys y, l = ys ++ [y] := by
      rcases eq_nil_or_concat l with rfl | ⟨ys, y, rfl⟩
      · exact absurd (decode_eq_none.mp htail) hnone
      · exact ⟨ys, y, concat_eq_append⟩
    rw [getLast?_concat, decode_eq_some] at htail
    have hy : y ∈ ys ++ [y] := by simp
    obtain ⟨node, hnode⟩ := (h.inRange y hy).exists_node
    obtain ⟨p', hp', hunlink, -⟩ := h.unlink hy
    have hnot : y ∉ ys := by
      have hdisj := disjoint_of_nodup_append h.holds.nodup
      exact fun hmem => hdisj hmem (mem_singleton_self y)
    rw [erase_append_right _ hnot, erase_cons_head, append_nil] at hunlink
    refine ⟨p', ?_, by rwa [dropLast_concat]⟩
    rw [dif_neg hnone, getLast?_concat]
    simp only [htail, hnode, hp', Option.bind_eq_bind, Option.bind_some]

end Represents

/-! ## Refinement -/

inductive Op where
  | track (rid : RegionId) (now : ℕ)
  | touch (rid : RegionId) (now : ℕ)
  | evict
  | reset

/-- The policy, and what `evict` has returned so far -/
def step : LruPolicy × List (Option RegionId) → Op → Option (LruPolicy × List (Option RegionId))
  | (p, replies), .track rid now => (p.track rid now).map (·, replies)
  | (p, replies), .touch rid now => (p.touch rid now).map (·, replies)
  | (p, replies), .evict => p.evict.map fun (p, reply) => (p, replies ++ [reply])
  | (p, replies), .reset => some (p.reset, replies)

def Lru.step : Lru × List (Option RegionId) → Op → Option (Lru × List (Option RegionId))
  | (l, replies), .track rid _ => some (l.track rid, replies)
  | (l, replies), .touch rid _ => some (l.touch rid, replies)
  | (l, replies), .evict => some (l.evict.1, replies ++ [l.evict.2])
  | (_, replies), .reset => some ([], replies)

/-- The policy and the list have replied the same, and the array represents the list. -/
def Refines (s : LruPolicy × List (Option RegionId)) (a : Lru × List (Option RegionId)) : Prop :=
  s.2 = a.2 ∧ Represents s.1 a.1

variable {s : LruPolicy × List (Option RegionId)} {a : Lru × List (Option RegionId)}

/-- A step of the policy is one of the list. -/
theorem Refines.step (h : Refines s a) (op : Op) :
    ∃ s' a', step s op = some s' ∧ Lru.step a op = some a' ∧ Refines s' a' := by
  obtain ⟨p, replies⟩ := s
  obtain ⟨l, _⟩ := a
  obtain ⟨rfl, hrep⟩ := h
  cases op with
  | track rid now =>
      obtain ⟨p', hp', hrep'⟩ := hrep.track rid now
      exact ⟨(p', replies), _, by rw [LruPolicy.step, hp']; rfl, rfl, rfl, hrep'⟩
  | touch rid now =>
      obtain ⟨p', hp', hrep'⟩ := hrep.touch rid now
      exact ⟨(p', replies), _, by rw [LruPolicy.step, hp']; rfl, rfl, rfl, hrep'⟩
  | evict =>
      obtain ⟨p', hp', hrep'⟩ := hrep.evict
      exact ⟨(p', _), _, by rw [LruPolicy.step, hp']; rfl, rfl, rfl, hrep'⟩
  | reset => exact ⟨_, _, rfl, rfl, rfl, represents_empty⟩

/-- So is a run. -/
theorem Refines.exec (h : Refines s a) (run : List Op) :
    ∃ s' a', Transition.exec LruPolicy.step s run = some s' ∧
      Transition.exec Lru.step a run = some a' ∧ Refines s' a' := by
  induction run generalizing s a with
  | nil => exact ⟨s, a, rfl, rfl, h⟩
  | cons op run ih =>
      obtain ⟨s₁, a₁, hs₁, ha₁, h₁⟩ := h.step op
      obtain ⟨s₂, a₂, hs₂, ha₂, h₂⟩ := ih h₁
      exact ⟨s₂, a₂, exec_cons_eq_some.mpr ⟨s₁, hs₁, hs₂⟩, exec_cons_eq_some.mpr ⟨a₁, ha₁, ha₂⟩, h₂⟩

/-- **The policy refines the LRU list.** Every sequence of calls returns, with the replies of the list,
and the array then represents the list. -/
theorem policy_refines_lru (run : List Op) :
    ∃ p l replies, exec step ({}, []) run = some (p, replies) ∧
      exec Lru.step ([], []) run = some (l, replies) ∧ Represents p l := by
  have hstart : Refines ({}, []) ([], []) := ⟨rfl, represents_empty⟩
  obtain ⟨⟨p, replies⟩, ⟨l, _⟩, hp, hl, rfl, hrep⟩ := hstart.exec run
  exact ⟨p, l, replies, hp, hl, hrep⟩

end LruPolicy

end CacheLib.Navy
