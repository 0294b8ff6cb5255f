/-
The queues of `MM2Q` and the flags of its nodes.

The invariant (`Queues`) has a list of nodes for each queue, what the flags of a node in a
queue are (`Denotes`), which nodes are in a queue and which are marked. The last two are
the same between calls. Within `add` and `remove` they are not: `rebalance` runs while the
node is linked and not yet marked, or marked and no longer linked. So it is shown to keep
both, whatever they are.

A hot node must not have the tail flag: when `rebalance` makes it cold, the flag would be
read as that of a node in the cold tail.
-/
import CacheLib.Allocator.MM2Q
import Mathlib.Data.Set.Insert

set_option autoImplicit false

namespace CacheLib.MM2Q

open Transition LinkedList Function

variable {α : Type*} {cfg : Config} {s s' : State α} {q : LruType → List α} {t t' : LruType} {x y : α}
  {M K : Set α}

/-! ## The invariant -/

/-- The flags of a node in a queue -/
def Denotes (cfg : Config) : LruType → Node → Prop
  | .hot, n => n.hot = true ∧ inTail cfg n = false
  | .cold, n => n.hot = false ∧ n.cold = true ∧ inTail cfg n = false
  | .coldTail, n => n.hot = false ∧ n.cold = true ∧ inTail cfg n = true
  | .warm, n => n.hot = false ∧ n.cold = false ∧ inTail cfg n = false
  | .warmTail, n => n.hot = false ∧ n.cold = false ∧ inTail cfg n = true

theorem Denotes.getLruType {n : Node} (h : Denotes cfg t n) : getLruType cfg n = t := by
  unfold MM2Q.getLruType
  cases t with
  | hot => rw [h.1, if_pos rfl]
  | cold => simp [h.1, h.2.1, h.2.2]
  | coldTail => simp [h.1, h.2.1, h.2.2]
  | warm => simp [h.1, h.2.1, h.2.2]
  | warmTail => simp [h.1, h.2.1, h.2.2]

/-- The queues are `q`, the nodes in them are `M`, and those that are marked are `K`. -/
structure Queues (cfg : Config) (M K : Set α) (s : State α) (q : LruType → List α) : Prop where
  holds : s.lru.Holds q
  denotes : ∀ {t x}, x ∈ q t → Denotes cfg t (s.node x)
  linked_iff : ∀ {x}, x ∈ M ↔ ∃ t, x ∈ q t
  marked_iff : ∀ {x}, x ∈ K ↔ (s.node x).inMMContainer = true

/-- The queues are those of the members, and the members are marked. -/
def Inv (cfg : Config) (s : State α) : Prop := ∃ M q, Queues cfg M M s q

/-- A node leaves one list for the head of another one, and its flags change. -/
def State.shift [DecidableEq α] (s : State α) (t t' : LruType) (x : α) (n : Node) : State α :=
  { s with lru := ((s.unlink t x).linkAtHead t' x).lru, node := update s.node x n }

@[simp] theorem State.shift_node_self [DecidableEq α] {n : Node} : (s.shift t t' x n).node x = n :=
  update_self ..

theorem State.shift_node_of_ne [DecidableEq α] {n : Node} (h : y ≠ x) :
    (s.shift t t' x n).node y = s.node y := update_of_ne h ..

/-- The queues after that -/
def moved [DecidableEq α] (q : LruType → List α) (t t' : LruType) (x : α) : LruType → List α :=
  update (update q t ((q t).erase x)) t'
    (x :: update q t ((q t).erase x) t')

namespace Queues

variable (h : Queues cfg M K s q)

include h

theorem not_mem (hx : x ∉ M) (t : LruType) : x ∉ q t :=
  fun hmem => hx (h.linked_iff.mpr ⟨t, hmem⟩)

/-- A member is in the queue that its flags denote. -/
theorem mem_getLruType (hx : x ∈ M) :
    x ∈ q (getLruType cfg (s.node x)) := by
  obtain ⟨t, ht⟩ := h.linked_iff.mp hx
  rw [(h.denotes ht).getLruType]
  exact ht

theorem tail_eq (t : LruType) : (s.getList t).tail = (q t).getLast? :=
  (h.holds.list t).tail_eq

theorem tail_mem (htail : (s.getList t).tail = some x) : x ∈ q t :=
  List.mem_of_getLast? (h.tail_eq t ▸ htail)

theorem size_eq (t : LruType) : s.size t = (q t).length :=
  (h.holds.list t).size_eq

theorem congr (hlru : s'.lru = s.lru) (hnode : s'.node = s.node) :
    Queues cfg M K s' q :=
  ⟨hlru ▸ h.holds, hnode ▸ h.denotes, h.linked_iff, hnode ▸ h.marked_iff⟩

variable [DecidableEq α]

/-- **A node changes its queue**, and its flags with it. -/
theorem shift (hx : x ∈ q t) {n : Node} (hdenotes : Denotes cfg t' n)
    (hmark : n.inMMContainer = (s.node x).inMMContainer) :
    Queues cfg M K (s.shift t t' x n) (moved q t t' x) := by
  have hmem : ∀ {y u}, y ∈ update q t ((q t).erase x) u ↔ y ∈ q u ∧ y ≠ x :=
    h.holds.mem_remove hx
  have hlink := (h.holds.remove hx).linkAtHead (i := t') fun u hu => (hmem.mp hu).2 rfl
  refine ⟨hlink, fun {u y} hy => ?_, fun {y} => ?_, fun {y} => ?_⟩
  · rw [moved, MultiDList.mem_linkAtHead, hmem] at hy
    rcases hy with ⟨hy, hne⟩ | ⟨rfl, rfl⟩
    · rw [State.shift_node_of_ne hne]
      exact h.denotes hy
    · rw [State.shift_node_self]
      exact hdenotes
  · simp only [moved, MultiDList.mem_linkAtHead, hmem]
    rw [h.linked_iff]
    constructor
    · rintro ⟨u, hu⟩
      by_cases hyx : y = x
      · exact ⟨t', Or.inr ⟨rfl, hyx⟩⟩
      · exact ⟨u, Or.inl ⟨hu, hyx⟩⟩
    · rintro ⟨u, ⟨hu, -⟩ | ⟨-, rfl⟩⟩
      · exact ⟨u, hu⟩
      · exact ⟨t, hx⟩
  · rw [h.marked_iff]
    by_cases hyx : y = x
    · rw [hyx, State.shift_node_self, hmark]
    · rw [State.shift_node_of_ne hyx]

theorem moveToHead (hx : x ∈ q t) :
    Queues cfg M K (s.moveToHead t x) (moved q t t x) := by
  have hmem : ∀ {y u}, y ∈ update q t (x :: (q t).erase x) u ↔ y ∈ q u :=
    h.holds.mem_moveToHead hx
  rw [moved, update_idem, update_self]
  refine ⟨h.holds.moveToHead hx, fun hy => h.denotes (hmem.mp hy), ?_, h.marked_iff⟩
  simp only [hmem]
  exact h.linked_iff

theorem linkAtHead (hx : x ∉ M) (hdenotes : Denotes cfg t (s.node x)) :
    Queues cfg (insert x M) K (s.linkAtHead t x) (update q t (x :: q t)) := by
  refine ⟨h.holds.linkAtHead (h.not_mem hx), fun {u y} hy => ?_, fun {y} => ?_, h.marked_iff⟩
  · rcases MultiDList.mem_linkAtHead.mp hy with hy | ⟨rfl, rfl⟩
    · exact h.denotes hy
    · exact hdenotes
  · simp only [MultiDList.mem_linkAtHead]
    rw [Set.mem_insert_iff, h.linked_iff]
    constructor
    · rintro (rfl | ⟨u, hu⟩)
      · exact ⟨t, Or.inr ⟨rfl, rfl⟩⟩
      · exact ⟨u, Or.inl hu⟩
    · rintro ⟨u, hu | ⟨-, rfl⟩⟩
      · exact Or.inr ⟨u, hu⟩
      · exact Or.inl rfl

theorem unlink (hx : x ∈ q t) :
    Queues cfg (M \ {x}) K (s.unlink t x) (update q t ((q t).erase x)) := by
  have hmem : ∀ {y u}, y ∈ update q t ((q t).erase x) u ↔ y ∈ q u ∧ y ≠ x :=
    h.holds.mem_remove hx
  refine ⟨h.holds.remove hx, fun hy => h.denotes (hmem.mp hy).1, fun {y} => ?_, h.marked_iff⟩
  simp only [hmem]
  rw [Set.mem_sdiff, Set.mem_singleton_iff, h.linked_iff]
  exact ⟨fun ⟨⟨u, hu⟩, hne⟩ => ⟨u, hu, hne⟩, fun ⟨u, hu, hne⟩ => ⟨⟨u, hu⟩, hne⟩⟩

/-- The flags of a node that is not linked do not matter. -/
theorem set_of_not_mem (hx : x ∉ M) {f : Node → Node}
    (hmark : ∀ n, (f n).inMMContainer = n.inMMContainer) : Queues cfg M K (s.set x f) q := by
  refine ⟨h.holds, fun {u y} hy => ?_, h.linked_iff, fun {y} => ?_⟩
  · have hne : y ≠ x := fun heq => h.not_mem hx u (heq ▸ hy)
    rw [State.set_node_of_ne hne]
    exact h.denotes hy
  · rw [h.marked_iff]
    by_cases hyx : y = x
    · rw [hyx, State.set_node_self, hmark]
    · rw [State.set_node_of_ne hyx]

/-- A change of a node that leaves its flags -/
theorem set_of_sameFlags {f : Node → Node} (K' : Set α)
    (hflags : ∀ n, (f n).hot = n.hot ∧ (f n).cold = n.cold ∧ (f n).tail = n.tail)
    (hself : x ∈ K' ↔ (f (s.node x)).inMMContainer = true) (hothers : ∀ y ≠ x, y ∈ K' ↔ y ∈ K) :
    Queues cfg M K' (s.set x f) q := by
  have hdenotes : ∀ t n, Denotes cfg t n → Denotes cfg t (f n) := by
    intro t n hn
    obtain ⟨hhot, hcold, htail⟩ := hflags n
    cases t <;> simpa only [Denotes, inTail, hhot, hcold, htail] using hn
  refine ⟨h.holds, fun {u y} hy => ?_, h.linked_iff, fun {y} => ?_⟩
  · by_cases hyx : y = x
    · subst hyx
      rw [State.set_node_self]
      exact hdenotes u _ (h.denotes hy)
    · rw [State.set_node_of_ne hyx]
      exact h.denotes hy
  · by_cases hyx : y = x
    · subst hyx
      rw [State.set_node_self]
      exact hself
    · rw [State.set_node_of_ne hyx, hothers y hyx]
      exact h.marked_iff

end Queues

variable [DecidableEq α]

/-! ## `replace` -/

/-- **The new node of a `replace` has no flags that the queue of the old one does not go with.** A
node that has been in the container before may well have some. -/
def Suits (cfg : Config) (oldNode newNode : Node) : Prop :=
  match getLruType cfg oldNode with
  | .hot => inTail cfg newNode = false
  | .cold => newNode.hot = false ∧ inTail cfg newNode = false
  | .coldTail => newNode.hot = false
  | .warm => newNode.hot = false ∧ newNode.cold = false ∧ inTail cfg newNode = false
  | .warmTail => newNode.hot = false ∧ newNode.cold = false

theorem Suits.denotes {oldNode newNode : Node} (h : Suits cfg oldNode newNode)
    (hold : Denotes cfg t oldNode) : Denotes cfg t (markAs t newNode) := by
  unfold Suits at h
  rw [hold.getLruType] at h
  have htail : inTail cfg oldNode = true → inTail cfg newNode.markTail = true := by
    simp only [inTail, Node.markTail, Bool.and_eq_true]
    exact fun hand => ⟨hand.1, trivial⟩
  cases t with
  | hot => exact ⟨rfl, h⟩
  | cold => exact ⟨h.1, rfl, h.2⟩
  | coldTail => exact ⟨h, rfl, htail hold.2.2⟩
  | warm => exact h
  | warmTail => exact ⟨h.1, h.2, htail hold.2.2⟩

/-- A node takes the place of another one. -/
theorem Queues.replaced {oldNode newNode : α} (h : Queues cfg M M s q) (hmem : oldNode ∈ q t)
    (hnew : newNode ∉ M) (hdenotes : Denotes cfg t (markAs t (s.node newNode))) (time : UInt32) :
    Queues cfg (insert newNode (M \ {oldNode})) (insert newNode (M \ {oldNode}))
      ((((s.replaceIn t oldNode newNode).set newNode (markAs t)).set oldNode
        Node.unmarkInMMContainer).set newNode fun n => n.markInMMContainer.setUpdateTime time)
      (update q t (MultiDList.swap oldNode newNode (q t))) := by
  have hin : ∀ {y u}, y ∈ update q t (MultiDList.swap oldNode newNode (q t)) u ↔
      y ∈ q u ∧ y ≠ oldNode ∨ u = t ∧ y = newNode := h.holds.mem_replace hmem
  have hq₁ : Queues cfg (insert newNode (M \ {oldNode})) M
      ((s.replaceIn t oldNode newNode).set newNode (markAs t))
      (update q t (MultiDList.swap oldNode newNode (q t))) := by
    refine ⟨h.holds.replace hmem (h.not_mem hnew), fun {u y} hy => ?_, fun {y} => ?_,
      fun {y} => ?_⟩
    · rcases hin.mp hy with ⟨hy, -⟩ | ⟨rfl, rfl⟩
      · have hyne : y ≠ newNode := fun heq => h.not_mem hnew u (heq ▸ hy)
        rw [State.set_node_of_ne hyne]
        exact h.denotes hy
      · rw [State.set_node_self]
        exact hdenotes
    · simp only [hin]
      rw [Set.mem_insert_iff, Set.mem_sdiff, Set.mem_singleton_iff, h.linked_iff]
      constructor
      · rintro (rfl | ⟨⟨u, hu⟩, hy⟩)
        · exact ⟨t, Or.inr ⟨rfl, rfl⟩⟩
        · exact ⟨u, Or.inl ⟨hu, hy⟩⟩
      · rintro ⟨u, ⟨hu, hy⟩ | ⟨-, rfl⟩⟩
        · exact Or.inr ⟨⟨u, hu⟩, hy⟩
        · exact Or.inl rfl
    · rw [h.marked_iff]
      by_cases hyne : y = newNode
      · subst hyne
        rw [State.set_node_self]
        show _ ↔ (markAs t (s.node y)).inMMContainer = true
        cases t <;> rfl
      · rw [State.set_node_of_ne hyne]
        rfl
  have hq₂ := hq₁.set_of_sameFlags (x := oldNode) (f := Node.unmarkInMMContainer) (M \ {oldNode})
    (fun _ => ⟨rfl, rfl, rfl⟩) (iff_of_false (by simp) Bool.false_ne_true) (fun y hy => by simp [hy])
  exact hq₂.set_of_sameFlags _ (fun _ => ⟨rfl, rfl, rfl⟩) (iff_of_true (Set.mem_insert newNode _) rfl)
    (fun _ hy => Set.mem_insert_iff.trans (or_iff_right hy))

/-- The condition on a `replace` that replaces something -/
def SuitableReplace (cfg : Config) (s : State α) : Op α → Prop
  | .replace oldNode newNode =>
      (s.node oldNode).inMMContainer = true → (s.node newNode).inMMContainer = false →
        Suits cfg (s.node oldNode) (s.node newNode)
  | _ => True

/-! ## What a caller can rely on -/

/-- **The queues are in order.** There are nodes that are linked from the head of each queue to its
tail and back, as many as its size says. A node that is marked is in the queue that its flags denote
and in no other, and a node that is not marked is in none. -/
def InOrder (cfg : Config) (s : State α) : Prop :=
  ∃ q : LruType → List α, (∀ t, (s.getList t).Holds s.lru.links (q t)) ∧
    ∀ x, if (s.node x).inMMContainer then ∀ t, x ∈ q t ↔ t = getLruType cfg (s.node x)
      else ∀ t, x ∉ q t

omit [DecidableEq α] in
theorem Inv.inOrder (h : Inv cfg s) : InOrder cfg s := by
  obtain ⟨M, q, hq⟩ := h
  refine ⟨q, hq.holds.list, fun x => ?_⟩
  split
  · rename_i hmarked
    intro t
    constructor
    · exact fun hx => (hq.denotes hx).getLruType.symm
    · rintro rfl
      exact hq.mem_getLruType (hq.marked_iff.mpr hmarked)
  · rename_i hmarked
    exact hq.not_mem (mt hq.marked_iff.mp hmarked)

omit [DecidableEq α] in
theorem queues_init (time : UInt32) :
    Queues cfg ∅ ∅ (init cfg time : State α) (fun _ => []) := by
  refine ⟨⟨fun t => ⟨rfl, rfl, rfl, trivial, List.nodup_nil⟩, fun hx _ => ?_⟩, fun hx => ?_,
    fun {x} => ?_, fun {x} => ?_⟩
  · exact absurd hx List.not_mem_nil
  · exact absurd hx List.not_mem_nil
  · exact iff_of_false (Set.notMem_empty x) fun ⟨_, hx⟩ => List.not_mem_nil hx
  · exact iff_of_false (Set.notMem_empty x) Bool.false_ne_true

end CacheLib.MM2Q
