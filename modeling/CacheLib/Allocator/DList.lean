/-
`DList` and `MultiDList` (`cachelib/allocator/datastruct/DList.h` and `MultiDList.h`):
intrusive doubly linked lists, and several of them over the same nodes.

A node has one hook, so one pair of links, whatever list it is in, and a list knows only
its first node, its last node and how many there are. An operation on a list believes its
caller that the node is in this list. The links are all that it changes besides the list;
what the list then holds, and that no other node's links have changed, is one statement
for each operation (`Becomes`).
-/
import CacheLib.Lib.LinkedList

set_option autoImplicit false

namespace CacheLib

open LinkedList Links Function List Option

/-! ## `DList` -/

structure DList (α : Type*) where
  head : Option α := none
  tail : Option α := none
  size : ℕ := 0

namespace DList

variable {α : Type*} [DecidableEq α]

def linkAtHead (d : DList α) (l : Links α) (node : α) : DList α × Links α :=
  let l := (l.setNext node d.head).setPrev node none
  -- the prev pointer of the head
  let l := l.setPrevOf d.head (some node)
  let tail := if d.tail = none then some node else d.tail
  ({ head := some node, tail, size := d.size + 1 }, l)

def linkAtTail (d : DList α) (l : Links α) (node : α) : DList α × Links α :=
  let l := (l.setNext node none).setPrev node d.tail
  -- the next pointer of the tail
  let l := l.setNextOf d.tail (some node)
  let head := if d.head = none then some node else d.head
  ({ head, tail := some node, size := d.size + 1 }, l)

def insertBefore (d : DList α) (l : Links α) (nextNode node : α) : DList α × Links α :=
  let prev := l.prev nextNode
  let head := if prev = none then some node else d.head
  let l := (l.setPrev node prev).setNextOf prev (some node)
  ({ d with head, size := d.size + 1 }, (l.setPrev nextNode (some node)).setNext node (some nextNode))

/-- `unlink`, which leaves the links of the node -/
def unlink (d : DList α) (l : Links α) (node : α) : DList α × Links α :=
  let prev := l.prev node
  let next := l.next node
  let head := if d.head = some node then next else d.head
  let tail := if d.tail = some node then prev else d.tail
  let l := l.setNextOf prev (l.next node)
  let l := l.setPrevOf next (l.prev node)
  ({ head, tail, size := d.size - 1 }, l)

def remove (d : DList α) (l : Links α) (node : α) : DList α × Links α :=
  let (d, l) := d.unlink l node
  (d, (l.setNext node none).setPrev node none)

def replace (d : DList α) (l : Links α) (oldNode newNode : α) : DList α × Links α :=
  let head := if d.head = some oldNode then some newNode else d.head
  let tail := if d.tail = some oldNode then some newNode else d.tail
  let prev := l.prev oldNode
  let next := l.next oldNode
  let l := (l.setNextOf prev (some newNode)).setPrevOf next (some newNode)
  let l := (l.setPrev newNode prev).setNext newNode next
  ({ d with head, tail }, (l.setPrev oldNode none).setNext oldNode none)

def moveToHead (d : DList α) (l : Links α) (node : α) : DList α × Links α :=
  if d.head = some node then (d, l)
  else
    let (d, l) := d.unlink l node
    d.linkAtHead l node

/-! ### What a list holds -/

/-- The nodes of a list, from the head to the tail. -/
structure Holds (d : DList α) (l : Links α) (xs : List α) : Prop where
  head_eq : d.head = xs.head?
  tail_eq : d.tail = xs.getLast?
  size_eq : d.size = xs.length
  segment : Segment l none xs none
  nodup : xs.Nodup

/-- A list has held `xs`; now it holds `xs'`, and nothing else has changed. -/
structure Becomes (l : Links α) (xs : List α) (r : DList α × Links α) (xs' : List α) : Prop where
  holds : r.1.Holds r.2 xs'
  agree : ∀ y, y ∉ xs → y ∉ xs' → Agree l r.2 y

variable {d : DList α} {l l' : Links α} {xs ys zs : List α} {x y : α}

omit [DecidableEq α] in
theorem Holds.congr (h : d.Holds l xs) (hagree : ∀ x ∈ xs, Agree l l' x) : d.Holds l' xs :=
  ⟨h.head_eq, h.tail_eq, h.size_eq, h.segment.congr hagree, h.nodup⟩

/-- A node that has been linked between two parts of a list -/
theorem Holds.link {r : DList α × Links α} (h : d.Holds l xs) (hxs : xs = ys ++ zs) (hx : x ∉ xs)
    (hhead : r.1.head = (ys ++ x :: zs).head?) (htail : r.1.tail = (ys ++ x :: zs).getLast?)
    (hsize : r.1.size = d.size + 1) (hprev : r.2.prev x = ys.getLast?) (hnext : r.2.next x = zs.head?)
    (hagree : ∀ z, z ≠ x →
      Agree ((l.setNextOf ys.getLast? (some x)).setPrevOf zs.head? (some x)) r.2 z) :
    Becomes l xs r (ys ++ x :: zs) := by
  subst hxs
  obtain ⟨hys, hzs⟩ := segment_append.mp h.segment
  have hnodup := nodup_middle.mpr (nodup_cons.mpr ⟨hx, h.nodup⟩)
  rw [or_none] at hys hzs
  have hsegment := hys.link hzs h.nodup (fun z hz => hagree z fun heq => hx (heq ▸ hz)) hprev hnext
  refine ⟨⟨hhead, htail, ?_, hsegment, hnodup⟩, fun z hz hz' => ?_⟩
  · rw [hsize, h.size_eq, length_append, length_append, length_cons, Nat.add_assoc]
  · rw [mem_append, not_or] at hz
    have hlast : ys.getLast? ≠ some z := fun heq => hz.1 (mem_of_getLast? heq)
    have hfirst : zs.head? ≠ some z := fun heq => hz.2 (mem_of_head? heq)
    have hside := (agree_setNextOf hlast l (some x)).trans (agree_setPrevOf hfirst _ (some x))
    exact hside.trans (hagree z fun heq => hz' (heq ▸ mem_append_right ys mem_cons_self))

theorem Holds.linkAtHead (h : d.Holds l xs) (hx : x ∉ xs) :
    Becomes l xs (d.linkAtHead l x) (x :: xs) := by
  have hhead : d.head ≠ some x := fun heq => hx (mem_of_head? (h.head_eq ▸ heq))
  have hself := agree_setPrevOf hhead ((l.setNext x d.head).setPrev x none) (some x)
  show Becomes l xs _ ([] ++ x :: xs)
  refine h.link rfl hx rfl ?_ rfl (hself.2.trans setPrev_prev_self) ?_ fun z hz => ?_
  · -- an empty list has no tail
    show (if d.tail = none then some x else d.tail) = _
    rw [h.tail_eq]
    rcases eq_nil_or_concat xs with rfl | ⟨ys, y, rfl⟩
    · rfl
    · simp [getLast?_cons]
  · exact (hself.1.trans setNext_next_self).trans h.head_eq
  · rw [← h.head_eq]
    exact ((agree_setNext hz l _).trans (agree_setPrev hz _ _)).setPrevOf

theorem Holds.linkAtTail (h : d.Holds l xs) (hx : x ∉ xs) :
    Becomes l xs (d.linkAtTail l x) (xs ++ [x]) := by
  have htail : d.tail ≠ some x := fun heq => hx (mem_of_getLast? (h.tail_eq ▸ heq))
  have hself := agree_setNextOf htail ((l.setNext x none).setPrev x d.tail) (some x)
  refine h.link (append_nil xs).symm hx ?_ getLast?_concat.symm rfl ?_
    (hself.1.trans setNext_next_self) fun z hz => ?_
  · -- an empty list has no head
    show (if d.head = none then some x else d.head) = _
    rw [h.head_eq]
    cases xs with
    | nil => rfl
    | cons y ys => rfl
  · exact (hself.2.trans setPrev_prev_self).trans h.tail_eq
  · rw [← h.tail_eq]
    exact ((agree_setNext hz l _).trans (agree_setPrev hz _ _)).setNextOf

omit [DecidableEq α] in
/-- What is known of a node in the middle of a list -/
theorem Holds.of_append (h : d.Holds l (ys ++ x :: zs)) :
    l.prev x = ys.getLast? ∧ l.next x = zs.head? ∧ Segment l none ys (some x) ∧
      Segment l (some x) zs none ∧ (ys ++ zs).Nodup ∧ x ∉ ys ∧ x ∉ zs := by
  obtain ⟨hys, hprev, hnext, hzs⟩ := segment_append.mp h.segment
  obtain ⟨hmem, hnodup⟩ := nodup_cons.mp (nodup_middle.mp h.nodup)
  rw [mem_append, not_or] at hmem
  rw [or_none] at hprev hnext
  exact ⟨hprev, hnext, hys, hzs, hnodup, hmem.1, hmem.2⟩

theorem Holds.insertBefore (h : d.Holds l (ys ++ y :: zs)) (hx : x ∉ ys ++ y :: zs) :
    Becomes l (ys ++ y :: zs) (d.insertBefore l y x) (ys ++ x :: y :: zs) := by
  obtain ⟨hprev, -⟩ := h.of_append
  have hne : x ≠ y := fun heq => hx (heq ▸ mem_append_right ys mem_cons_self)
  have hlast : ys.getLast? ≠ some x := fun heq =>
    hx (mem_append_left _ (mem_of_getLast? heq))
  refine h.link rfl hx ?_ ?_ rfl ?_ setNext_next_self fun z hz => ?_
  · show (if l.prev y = none then some x else d.head) = _
    rw [hprev, h.head_eq]
    cases ys with
    | nil => rfl
    | cons z ys => simp [getLast?_cons]
  · show d.tail = _
    rw [h.tail_eq]
    simp [getLast?_append, getLast?_cons]
  · show update _ y _ x = _
    rw [update_of_ne hne, hprev]
    exact (agree_setNextOf hlast _ _).2.trans setPrev_prev_self
  · rw [DList.insertBefore, hprev]
    exact ((agree_setPrev hz l _).setNextOf.setPrevOf).trans (agree_setNext hz _ _)

omit [DecidableEq α] in
/-- The last node is the one that nothing is behind. -/
theorem Holds.next_eq_none_iff (h : d.Holds l xs) (hx : x ∈ xs) :
    l.next x = none ↔ d.tail = some x := by
  obtain ⟨ys, zs, rfl⟩ := append_of_mem hx
  obtain ⟨-, hnext, -, -, -, -, hzs⟩ := h.of_append
  rw [hnext, h.tail_eq]
  rcases eq_nil_or_concat zs with rfl | ⟨zs', z, rfl⟩
  · simp
  · have hne : z ≠ x := fun heq => hzs (by simp [heq])
    simp [getLast?_append, getLast?_cons, hne]

omit [DecidableEq α] in
/-- The first node is the one that nothing is before. -/
theorem Holds.prev_eq_none_iff (h : d.Holds l xs) (hx : x ∈ xs) :
    l.prev x = none ↔ d.head = some x := by
  obtain ⟨ys, zs, rfl⟩ := append_of_mem hx
  obtain ⟨hprev, -, -, -, -, hys, -⟩ := h.of_append
  rw [hprev, h.head_eq]
  cases ys with
  | nil => simp
  | cons y ys =>
      have hne : y ≠ x := fun heq => hys (heq ▸ mem_cons_self)
      simp [getLast?_cons, hne]

omit [DecidableEq α] in
theorem Holds.next_mem (h : d.Holds l xs) (hx : x ∈ xs) (hy : l.next x = some y) : y ∈ xs := by
  obtain ⟨ys, zs, rfl⟩ := append_of_mem hx
  obtain ⟨-, hnext, -⟩ := h.of_append
  rw [hnext] at hy
  exact mem_append_right ys (mem_cons_of_mem x (mem_of_head? hy))

omit [DecidableEq α] in
theorem Holds.prev_mem (h : d.Holds l xs) (hx : x ∈ xs) (hy : l.prev x = some y) : y ∈ xs := by
  obtain ⟨ys, zs, rfl⟩ := append_of_mem hx
  obtain ⟨hprev, -⟩ := h.of_append
  rw [hprev] at hy
  exact mem_append_left _ (mem_of_getLast? hy)

/-- The first node, if a node of the list is replaced by other ones -/
theorem head?_middle (hx : x ∉ ys) (ws : List α) :
    (if (ys ++ x :: zs).head? = some x then ws.head? else (ys ++ x :: zs).head?) = (ys ++ ws).head? := by
  cases ys with
  | nil => simp
  | cons y ys =>
      have hne : y ≠ x := fun heq => hx (heq ▸ mem_cons_self)
      simp [hne]

/-- The last node -/
theorem getLast?_middle (hx : x ∉ zs) (ws : List α) :
    (if (ys ++ x :: zs).getLast? = some x then ws.getLast? else (ys ++ x :: zs).getLast?)
      = (ws ++ zs).getLast? := by
  rcases eq_nil_or_concat zs with rfl | ⟨zs', z, rfl⟩
  · simp
  · have hne : z ≠ x := fun heq => hx (by simp [heq])
    simp [getLast?_append, getLast?_cons, hne]

theorem Holds.unlink (h : d.Holds l (ys ++ x :: zs)) :
    Becomes l (ys ++ x :: zs) (d.unlink l x) (ys ++ zs) := by
  obtain ⟨hprev, hnext, hys, hzs, hnodup, hxys, hxzs⟩ := h.of_append
  obtain ⟨hys', hzs'⟩ := hys.relink hzs hnodup zs.head? ys.getLast?
  have hlinks : (d.unlink l x).2 = (l.setNextOf ys.getLast? zs.head?).setPrevOf zs.head? ys.getLast? := by
    simp only [DList.unlink, setNextOf_prev, hprev, hnext]
  refine ⟨⟨?_, ?_, ?_, ?_, hnodup⟩, fun y hy _ => ?_⟩
  · show (if d.head = some x then l.next x else d.head) = _
    rw [h.head_eq, hnext, head?_middle hxys]
  · show (if d.tail = some x then l.prev x else d.tail) = _
    rw [h.tail_eq, hprev, getLast?_middle hxzs]
  · show d.size - 1 = _
    rw [h.size_eq, length_append, length_append, length_cons]
    omega
  · rw [hlinks, segment_append, or_none, or_none]
    exact ⟨hys', hzs'⟩
  · rw [hlinks]
    have hlast : ys.getLast? ≠ some y := fun heq =>
      hy (mem_append_left _ (mem_of_getLast? heq))
    have hhead : zs.head? ≠ some y := fun heq =>
      hy (mem_append_right _ (mem_cons_of_mem x (mem_of_head? heq)))
    exact (agree_setNextOf hlast _ _).trans (agree_setPrevOf hhead _ _)

theorem Holds.remove (h : d.Holds l (ys ++ x :: zs)) :
    Becomes l (ys ++ x :: zs) (d.remove l x) (ys ++ zs) := by
  obtain ⟨-, -, -, -, -, hxys, hxzs⟩ := h.of_append
  have hagree : ∀ y, y ≠ x → Agree (d.unlink l x).2 (d.remove l x).2 y := fun y hy =>
    (agree_setNext hy _ _).trans (agree_setPrev hy _ _)
  refine ⟨h.unlink.holds.congr fun y hy => hagree y ?_, fun y hy hy' => ?_⟩
  · rintro rfl
    exact (mem_append.mp hy).elim hxys hxzs
  · have hne : y ≠ x := fun heq => hy (heq ▸ mem_append_right ys mem_cons_self)
    exact (h.unlink.agree y hy hy').trans (hagree y hne)

theorem Holds.replace (h : d.Holds l (ys ++ x :: zs)) (hy : y ∉ ys ++ x :: zs) :
    Becomes l (ys ++ x :: zs) (d.replace l x y) (ys ++ y :: zs) := by
  obtain ⟨hprev, hnext, hys, hzs, hnodup, hxys, hxzs⟩ := h.of_append
  rw [mem_append, mem_cons, not_or, not_or] at hy
  obtain ⟨hyys, hyx, hyzs⟩ := hy
  let l₁ := (l.setNextOf ys.getLast? (some y)).setPrevOf zs.head? (some y)
  let l₂ := (l₁.setPrev y ys.getLast?).setNext y zs.head?
  have hlinks : (d.replace l x y).2 = (l₂.setPrev x none).setNext x none := by
    simp only [DList.replace, hprev, hnext, l₁, l₂]
  have hagree₂ : ∀ z, z ≠ y → Agree l₁ l₂ z := fun z hz =>
    (agree_setPrev hz _ _).trans (agree_setNext hz _ _)
  have hagree : ∀ z, z ≠ x → Agree l₂ (d.replace l x y).2 z := fun z hz =>
    hlinks ▸ (agree_setPrev hz _ _).trans (agree_setNext hz _ _)
  refine ⟨⟨?_, ?_, ?_, ?_, ?_⟩, fun z hz hz' => ?_⟩
  · show (if d.head = some x then some y else d.head) = _
    rw [h.head_eq]
    exact head?_middle hxys (y :: zs)
  · show (if d.tail = some x then some y else d.tail) = _
    rw [h.tail_eq, append_cons ys y zs, ← getLast?_middle hxzs, getLast?_concat]
  · show d.size = _
    rw [h.size_eq, length_append, length_append, length_cons, length_cons]
  · refine hys.link hzs hnodup (fun z hz => ?_) ((hagree y hyx).2.trans setPrev_prev_self)
      ((hagree y hyx).1.trans setNext_next_self)
    rcases mem_append.mp hz with hz | hz
    · exact (hagree₂ z fun heq => hyys (heq ▸ hz)).trans (hagree z fun heq => hxys (heq ▸ hz))
    · exact (hagree₂ z fun heq => hyzs (heq ▸ hz)).trans (hagree z fun heq => hxzs (heq ▸ hz))
  · rw [nodup_middle, nodup_cons, mem_append, not_or]
    exact ⟨⟨hyys, hyzs⟩, hnodup⟩
  · rw [mem_append, mem_cons, not_or, not_or] at hz hz'
    have hlast : ys.getLast? ≠ some z := fun heq => hz.1 (mem_of_getLast? heq)
    have hhead : zs.head? ≠ some z := fun heq => hz.2.2 (mem_of_head? heq)
    have hside : Agree l l₁ z := (agree_setNextOf hlast _ _).trans (agree_setPrevOf hhead _ _)
    exact (hside.trans (hagree₂ z hz'.2.1)).trans (hagree z hz.2.1)

theorem Holds.moveToHead (h : d.Holds l (ys ++ x :: zs)) :
    Becomes l (ys ++ x :: zs) (d.moveToHead l x) (x :: (ys ++ zs)) := by
  obtain ⟨-, -, -, -, -, hxys, hxzs⟩ := h.of_append
  unfold DList.moveToHead
  by_cases hhead : d.head = some x
  · rw [if_pos hhead]
    rw [h.head_eq] at hhead
    -- a node that is the head has nothing before it
    cases ys with
    | nil => exact ⟨h, fun _ _ _ => ⟨rfl, rfl⟩⟩
    | cons y ys => exact absurd (some.inj hhead ▸ mem_cons_self) hxys
  · rw [if_neg hhead]
    have hnot : x ∉ ys ++ zs := fun hmem => (mem_append.mp hmem).elim hxys hxzs
    have hunlink := h.unlink
    have hlink := hunlink.holds.linkAtHead hnot
    refine ⟨hlink.holds, fun y hy hy' => ?_⟩
    have hy'' : y ∉ ys ++ zs := fun hmem => hy' (mem_cons_of_mem x hmem)
    exact (hunlink.agree y hy hy'').trans (hlink.agree y hy'' hy')

theorem Holds.insertBefore_of_mem (h : d.Holds l xs) (hy : y ∈ xs) (hx : x ∉ xs) :
    Becomes l xs (d.insertBefore l y x) (xs.insertIdx (xs.idxOf y) x) := by
  obtain ⟨ys, zs, rfl⟩ := append_of_mem hy
  obtain ⟨-, -, -, -, -, hys, -⟩ := h.of_append
  rw [idxOf_append_of_notMem hys, idxOf_cons_self, insertIdx, modifyTailIdx_add]
  exact h.insertBefore hx

theorem Holds.remove_of_mem (h : d.Holds l xs) (hx : x ∈ xs) :
    Becomes l xs (d.remove l x) (xs.erase x) := by
  obtain ⟨ys, zs, -, rfl, herase⟩ := exists_erase_eq hx
  rw [herase]
  exact h.remove

theorem Holds.moveToHead_of_mem (h : d.Holds l xs) (hx : x ∈ xs) :
    Becomes l xs (d.moveToHead l x) (x :: xs.erase x) := by
  obtain ⟨ys, zs, -, rfl, herase⟩ := exists_erase_eq hx
  rw [herase]
  exact h.moveToHead

end DList

/-! ## `MultiDList` -/

/-- The lists, by their index, and the links of all nodes -/
structure MultiDList (ι α : Type*) where
  lists : ι → DList α := fun _ => {}
  links : Links α := ⟨fun _ => none, fun _ => none⟩

namespace MultiDList

variable {ι α : Type*} [DecidableEq ι] [DecidableEq α]

/-- An operation on one of the lists -/
def onList (m : MultiDList ι α) (i : ι) (f : DList α → Links α → DList α × Links α) :
    MultiDList ι α :=
  let (d, links) := f (m.lists i) m.links
  { lists := update m.lists i d, links }

/-- The nodes of each list. No node is in two lists. -/
structure Holds (m : MultiDList ι α) (q : ι → List α) : Prop where
  list : ∀ i, (m.lists i).Holds m.links (q i)
  apart : ∀ {i j x}, x ∈ q i → x ∈ q j → i = j

variable {m : MultiDList ι α} {q : ι → List α} {i : ι} {x y : α}

omit [DecidableEq α] in
/-- **An operation on one list leaves the other ones**, as long as the nodes it brings in are in none
of them. -/
theorem Holds.onList (h : m.Holds q) {f : DList α → Links α → DList α × Links α} {xs : List α}
    (hf : DList.Becomes m.links (q i) (f (m.lists i) m.links) xs)
    (hnew : ∀ x ∈ xs, x ∈ q i ∨ ∀ j, x ∉ q j) :
    (m.onList i f).Holds (update q i xs) := by
  -- a node of another list is neither in the old nor in the new one
  have hother : ∀ j ≠ i, ∀ x ∈ q j, x ∉ q i ∧ x ∉ xs := by
    intro j hj x hx
    have hold : x ∉ q i := fun hmem => hj (h.apart hx hmem)
    exact ⟨hold, fun hmem => (hnew x hmem).elim hold fun hnone => hnone j hx⟩
  have hupdate : ∀ j ≠ i, ∀ x ∈ q j, x ∉ update q i xs i := by
    intro j hj x hx
    rw [update_self]
    exact (hother j hj x hx).2
  constructor
  · intro j
    show (update m.lists i _ j).Holds _ _
    by_cases hj : j = i
    · subst hj
      rw [update_self, update_self]
      exact hf.holds
    · rw [update_of_ne hj, update_of_ne hj]
      exact (h.list j).congr fun x hx => hf.agree x (hother j hj x hx).1 (hother j hj x hx).2
  · intro j k x hj hk
    by_cases hji : j = i
    · by_cases hki : k = i
      · rw [hji, hki]
      · rw [update_of_ne hki] at hk
        exact absurd (hji ▸ hj) (hupdate k hki x hk)
    · rw [update_of_ne hji] at hj
      by_cases hki : k = i
      · exact absurd (hki ▸ hk) (hupdate j hji x hj)
      · rw [update_of_ne hki] at hk
        exact h.apart hj hk

theorem Holds.linkAtHead (h : m.Holds q) (hx : ∀ j, x ∉ q j) :
    (m.onList i fun d l => d.linkAtHead l x).Holds (update q i (x :: q i)) := by
  refine h.onList ((h.list i).linkAtHead (hx i)) fun y hy => ?_
  rcases mem_cons.mp hy with rfl | hmem
  · exact Or.inr hx
  · exact Or.inl hmem

theorem Holds.remove (h : m.Holds q) (hx : x ∈ q i) :
    (m.onList i fun d l => d.remove l x).Holds (update q i ((q i).erase x)) := by
  exact h.onList ((h.list i).remove_of_mem hx) fun y hy => Or.inl (mem_of_mem_erase hy)

theorem Holds.moveToHead (h : m.Holds q) (hx : x ∈ q i) :
    (m.onList i fun d l => d.moveToHead l x).Holds
      (update q i (x :: (q i).erase x)) := by
  refine h.onList ((h.list i).moveToHead_of_mem hx) fun y hy => Or.inl ?_
  rcases mem_cons.mp hy with rfl | hmem
  · exact hx
  · exact mem_of_mem_erase hmem

/-- `y` instead of `x` -/
def swap (x y : α) (xs : List α) : List α := xs.map fun z => if z = x then y else z

theorem mem_swap_iff {z : α} {xs : List α} :
    z ∈ swap x y xs ↔ x ∈ xs ∧ z = y ∨ z ∈ xs ∧ z ≠ x := by
  rw [swap, List.mem_map]
  constructor
  · rintro ⟨w, hw, rfl⟩
    split
    · rename_i heq
      exact Or.inl ⟨heq ▸ hw, rfl⟩
    · exact Or.inr ⟨hw, ‹_›⟩
  · rintro (⟨hx, rfl⟩ | ⟨hz, hne⟩)
    · exact ⟨x, hx, if_pos rfl⟩
    · exact ⟨z, hz, if_neg hne⟩

theorem mem_swap {z : α} {xs : List α} (hx : x ∈ xs) :
    z ∈ swap x y xs ↔ z = y ∨ z ∈ xs ∧ z ≠ x := by
  rw [mem_swap_iff, and_iff_right hx]

theorem swap_of_notMem {xs : List α} (hx : x ∉ xs) : swap x y xs = xs := by
  have hid : ∀ z ∈ xs, (if z = x then y else z) = id z := by
    intro z hz
    exact if_neg fun heq : z = x => hx (heq ▸ hz)
  rw [swap, map_congr_left hid, List.map_id]

theorem swap_append (xs ys : List α) : swap x y (xs ++ ys) = swap x y xs ++ swap x y ys :=
  map_append

omit [DecidableEq ι] in
theorem becomes_swap {d : DList α} {l : Links α} {xs : List α} (h : d.Holds l xs) (hx : x ∈ xs)
    (hy : y ∉ xs) :
    DList.Becomes l xs (d.replace l x y) (swap x y xs) := by
  obtain ⟨ys, zs, rfl⟩ := append_of_mem hx
  obtain ⟨-, -, -, -, -, hxys, hxzs⟩ := h.of_append
  rw [swap_append, swap_of_notMem hxys, swap, map_cons, if_pos rfl, ← swap,
    swap_of_notMem hxzs]
  exact h.replace hy

theorem Holds.replace (h : m.Holds q) (hx : x ∈ q i) (hy : ∀ j, y ∉ q j) :
    (m.onList i fun d l => d.replace l x y).Holds (update q i (swap x y (q i))) := by
  refine h.onList (becomes_swap (h.list i) hx (hy i)) fun z hz => ?_
  rcases (mem_swap hx).mp hz with rfl | ⟨hmem, -⟩
  · exact Or.inr hy
  · exact Or.inl hmem

/-! ### Who is where, after each of them -/

variable {j : ι} {z : α}

omit [DecidableEq ι] [DecidableEq α] in
/-- A node is in one list only. -/
theorem Holds.ne_of_mem (h : m.Holds q) (hx : x ∈ q i) (hj : j ≠ i) (hz : z ∈ q j) : z ≠ x :=
  fun heq => hj (h.apart (heq ▸ hz) hx)

omit [DecidableEq α] in
theorem mem_linkAtHead :
    z ∈ update q i (x :: q i) j ↔ z ∈ q j ∨ j = i ∧ z = x := by
  by_cases hj : j = i
  · subst hj
    rw [update_self, mem_cons, or_comm]
    simp
  · rw [update_of_ne hj]
    simp [hj]

theorem Holds.mem_remove (h : m.Holds q) (hx : x ∈ q i) :
    z ∈ update q i ((q i).erase x) j ↔ z ∈ q j ∧ z ≠ x := by
  by_cases hj : j = i
  · subst hj
    rw [update_self, (h.list j).nodup.mem_erase_iff, and_comm]
  · rw [update_of_ne hj]
    exact ⟨fun hz => ⟨hz, h.ne_of_mem hx hj hz⟩, And.left⟩

theorem Holds.mem_moveToHead (h : m.Holds q) (hx : x ∈ q i) :
    z ∈ update q i (x :: (q i).erase x) j ↔ z ∈ q j := by
  by_cases hj : j = i
  · subst hj
    rw [update_self, mem_cons, (h.list j).nodup.mem_erase_iff]
    constructor
    · rintro (rfl | ⟨-, hz⟩)
      · exact hx
      · exact hz
    · exact fun hz => (em (z = x)).imp_right fun hne => ⟨hne, hz⟩
  · rw [update_of_ne hj]

theorem Holds.mem_replace (h : m.Holds q) (hx : x ∈ q i) :
    z ∈ update q i (swap x y (q i)) j ↔ z ∈ q j ∧ z ≠ x ∨ j = i ∧ z = y := by
  by_cases hj : j = i
  · subst hj
    rw [update_self, mem_swap hx, or_comm]
    simp
  · rw [update_of_ne hj]
    constructor
    · exact fun hz => Or.inl ⟨hz, h.ne_of_mem hx hj hz⟩
    · rintro (⟨hz, -⟩ | ⟨heq, -⟩)
      · exact hz
      · exact absurd heq hj

end MultiDList

namespace DList

variable {α : Type*} [DecidableEq α] {d : DList α} {l : Links α} {xs : List α}

/-- **Each operation leaves a well-formed list with the nodes it should have**, and the links of all
other nodes as they were. -/
theorem Holds.operations (h : d.Holds l xs) :
    (∀ x ∉ xs, Becomes l xs (d.linkAtHead l x) (x :: xs)) ∧
    (∀ x ∉ xs, Becomes l xs (d.linkAtTail l x) (xs ++ [x])) ∧
    (∀ y ∈ xs, ∀ x ∉ xs, Becomes l xs (d.insertBefore l y x) (xs.insertIdx (xs.idxOf y) x)) ∧
    (∀ x ∈ xs, Becomes l xs (d.remove l x) (xs.erase x)) ∧
    (∀ x ∈ xs, ∀ y ∉ xs, Becomes l xs (d.replace l x y) (MultiDList.swap x y xs)) ∧
    ∀ x ∈ xs, Becomes l xs (d.moveToHead l x) (x :: xs.erase x) :=
  ⟨fun _ => h.linkAtHead, fun _ => h.linkAtTail, fun _ hy _ => h.insertBefore_of_mem hy,
    fun _ => h.remove_of_mem, fun _ hx _ => MultiDList.becomes_swap h hx, fun _ => h.moveToHead_of_mem⟩

theorem operations_pair :
    let l : Links ℕ := ⟨fun x => if x = 1 then some 2 else none, fun x => if x = 2 then some 1 else none⟩
    Becomes l [1, 2] (insertBefore ⟨some 1, some 2, 2⟩ l 2 3) [1, 3, 2] :=
  have h : Holds ⟨some 1, some 2, 2⟩ _ [1, 2] := ⟨rfl, rfl, rfl, ⟨rfl, rfl, rfl, rfl, trivial⟩, by decide⟩
  h.operations.2.2.1 2 (by decide) 3 (by decide)

end DList

end CacheLib
