/-
Doubly linked lists whose links are in the nodes.

Every node has a link to the next node and one to the node before it, whether it is in a
list or not; a list is the nodes that are met on the way. `Segment` says what is met, as a
list of nodes, together with what is linked at its two ends. It depends on the links of its
own nodes only (`Segment.congr`), which keeps several lists over the same nodes apart.
-/
import Mathlib.Data.List.Nodup
import Mathlib.Logic.Function.Basic

set_option autoImplicit false

namespace LinkedList

open Function

variable {α : Type*}

structure Links (α : Type*) where
  next : α → Option α
  prev : α → Option α

namespace Links

/-- The links of a node are the same. -/
def Agree (l l' : Links α) (x : α) : Prop := l'.next x = l.next x ∧ l'.prev x = l.prev x

theorem Agree.trans {l l' l'' : Links α} {x : α} (h : Agree l l' x) (h' : Agree l' l'' x) :
    Agree l l'' x :=
  ⟨h'.1.trans h.1, h'.2.trans h.2⟩

variable [DecidableEq α]

def setNext (l : Links α) (x : α) (v : Option α) : Links α :=
  { l with next := update l.next x v }

def setPrev (l : Links α) (x : α) (v : Option α) : Links α :=
  { l with prev := update l.prev x v }

/-- `setNext` if there is a node to set it at. -/
def setNextOf (l : Links α) (x v : Option α) : Links α :=
  match x with
  | none => l
  | some x => l.setNext x v

/-- `setPrev` if there is a node to set it at. -/
def setPrevOf (l : Links α) (x v : Option α) : Links α :=
  match x with
  | none => l
  | some x => l.setPrev x v

variable {l : Links α} {x y : α} {v : Option α}

theorem agree_setNext (h : y ≠ x) (l : Links α) (v : Option α) : Agree l (l.setNext x v) y :=
  ⟨update_of_ne h _ _, rfl⟩

theorem agree_setPrev (h : y ≠ x) (l : Links α) (v : Option α) : Agree l (l.setPrev x v) y :=
  ⟨rfl, update_of_ne h _ _⟩

theorem agree_setNextOf {o : Option α} (h : o ≠ some y) (l : Links α) (v : Option α) :
    Agree l (l.setNextOf o v) y := by
  cases o with
  | none => exact ⟨rfl, rfl⟩
  | some x => exact agree_setNext (fun heq => h (congrArg some heq.symm)) l v

theorem agree_setPrevOf {o : Option α} (h : o ≠ some y) (l : Links α) (v : Option α) :
    Agree l (l.setPrevOf o v) y := by
  cases o with
  | none => exact ⟨rfl, rfl⟩
  | some x => exact agree_setPrev (fun heq => h (congrArg some heq.symm)) l v

theorem Agree.setNextOf {l' : Links α} {o : Option α} (h : Agree l l' y) :
    Agree (l.setNextOf o v) (l'.setNextOf o v) y := by
  cases o with
  | none => exact h
  | some x => exact ⟨by simp only [Links.setNextOf, setNext, update_apply, h.1], h.2⟩

theorem Agree.setPrevOf {l' : Links α} {o : Option α} (h : Agree l l' y) :
    Agree (l.setPrevOf o v) (l'.setPrevOf o v) y := by
  cases o with
  | none => exact h
  | some x => exact ⟨h.1, by simp only [Links.setPrevOf, setPrev, update_apply, h.2]⟩

@[simp] theorem setNext_next_self : (l.setNext x v).next x = v := by
  simp only [setNext, update_self]

@[simp] theorem setPrev_prev_self : (l.setPrev x v).prev x = v := by
  simp only [setPrev, update_self]

@[simp] theorem setNextOf_prev {o : Option α} : (l.setNextOf o v).prev = l.prev := by
  cases o <;> rfl

end Links

open Links

/-- From the node behind `before` on, the nodes `xs` are linked one after the other, in both
directions, and then comes `after`. -/
def Segment (l : Links α) (before : Option α) : List α → Option α → Prop
  | [], _ => True
  | x :: xs, after =>
      l.prev x = before ∧ l.next x = xs.head?.or after ∧ Segment l (some x) xs after

variable {l l' : Links α} {a b : Option α} {xs ys : List α} {x : α}

theorem segment_append : Segment l b (xs ++ ys) a ↔
    Segment l b xs (ys.head?.or a) ∧ Segment l (xs.getLast?.or b) ys a := by
  induction xs generalizing b with
  | nil => simp [Segment]
  | cons x xs ih =>
      simp only [List.cons_append, Segment, ih, List.head?_append, Option.or_assoc,
        List.getLast?_cons, Option.or_some, Option.some_or, and_assoc]

theorem Segment.congr (h : Segment l b xs a) (hagree : ∀ x ∈ xs, Agree l l' x) :
    Segment l' b xs a := by
  induction xs generalizing b with
  | nil => trivial
  | cons x xs ih =>
      obtain ⟨hnext, hprev⟩ := hagree x List.mem_cons_self
      exact ⟨hprev.trans h.1, hnext.trans h.2.1,
        ih h.2.2 fun y hy => hagree y (List.mem_cons_of_mem x hy)⟩

variable [DecidableEq α]

/-- The end of a segment can be linked elsewhere. -/
theorem Segment.setNextOf (h : Segment l b xs a) (hnodup : xs.Nodup) (a' : Option α) :
    Segment (l.setNextOf xs.getLast? a') b xs a' := by
  rcases List.eq_nil_or_concat xs with rfl | ⟨ys, y, rfl⟩
  · trivial
  rw [List.concat_eq_append] at h hnodup ⊢
  rw [segment_append] at h
  rw [List.getLast?_concat, segment_append]
  have hmem : ∀ x ∈ ys, x ≠ y := by
    intro x hx heq
    have hdisj := List.disjoint_of_nodup_append hnodup
    exact hdisj hx (heq ▸ List.mem_singleton_self y)
  refine ⟨h.1.congr fun x hx => agree_setNext (hmem x hx) l a', h.2.1, ?_, trivial⟩
  exact setNext_next_self

/-- So can its beginning. -/
theorem Segment.setPrevOf (h : Segment l b xs a) (hnodup : xs.Nodup) (b' : Option α) :
    Segment (l.setPrevOf xs.head? b') b' xs a := by
  cases xs with
  | nil => trivial
  | cons x xs =>
      have hmem : ∀ y ∈ xs, y ≠ x := fun y hy heq => (List.nodup_cons.mp hnodup).1 (heq ▸ hy)
      exact ⟨setPrev_prev_self, h.2.1, h.2.2.congr fun y hy => agree_setPrev (hmem y hy) l b'⟩

/-- Linking the end of a segment and the beginning of another one elsewhere, at once. -/
theorem Segment.relink {a₁ b₁ a₂ b₂ : Option α} (hxs : Segment l b₁ xs a₁) (hys : Segment l b₂ ys a₂)
    (hnodup : (xs ++ ys).Nodup) (a' b' : Option α) :
    Segment ((l.setNextOf xs.getLast? a').setPrevOf ys.head? b') b₁ xs a' ∧
      Segment ((l.setNextOf xs.getLast? a').setPrevOf ys.head? b') b' ys a₂ := by
  obtain ⟨hxsNodup, hysNodup, hdisj⟩ := List.nodup_append'.mp hnodup
  have hlast : ∀ y ∈ ys, xs.getLast? ≠ some y := fun y hy heq =>
    hdisj (List.mem_of_getLast? heq) hy
  have hhead : ∀ x ∈ xs, ys.head? ≠ some x := fun x hx heq =>
    hdisj hx (List.mem_of_head? heq)
  constructor
  · exact (hxs.setNextOf hxsNodup a').congr fun x hx => agree_setPrevOf (hhead x hx) _ _
  · exact (hys.congr fun y hy => agree_setNextOf (hlast y hy) l a').setPrevOf hysNodup b'

/-- A node between two segments -/
theorem Segment.link (hxs : Segment l none xs a) (hys : Segment l b ys none) (hnodup : (xs ++ ys).Nodup)
    (hagree : ∀ z ∈ xs ++ ys,
      Agree ((l.setNextOf xs.getLast? (some x)).setPrevOf ys.head? (some x)) l' z)
    (hprev : l'.prev x = xs.getLast?) (hnext : l'.next x = ys.head?) :
    Segment l' none (xs ++ x :: ys) none := by
  obtain ⟨hxs', hys'⟩ := hxs.relink hys hnodup (some x) (some x)
  simp only [segment_append, Segment, List.head?_cons, Option.or_none]
  exact ⟨hxs'.congr fun z hz => hagree z (List.mem_append_left ys hz), hprev, hnext,
    hys'.congr fun z hz => hagree z (List.mem_append_right xs hz)⟩

end LinkedList
