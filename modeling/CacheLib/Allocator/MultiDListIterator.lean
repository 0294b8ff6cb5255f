/-
The iterator of `MultiDList` (`cachelib/allocator/datastruct/MultiDList.h`).

It starts at the tail of the last list and goes to the head of the first one. `Ahead` says which
nodes are still to come, and where the iterator is then; with that, `goForward` only ever takes the
first node off (`Ahead.goForward`), however many empty lists it goes over.

`goBackward` is not its inverse. Having come to the tail of a list, it goes on to the head of the
next one, and again as long as the node it is at is the tail of the list it is in. This is meant for
empty lists, where the head and the tail are none. But it is also so for a list of one node, and
that one is skipped as well.
-/
import CacheLib.Allocator.DList
import Mathlib.Algebra.Order.Ring.Nat
import Mathlib.Data.List.Induction

set_option autoImplicit false

namespace CacheLib.MultiDListIterator

open LinkedList List Option

/-! ## The iterator -/

/-- `MultiDList`: its lists, and the links of the nodes -/
structure Lists (α : Type*) where
  lists : List (DList α)
  links : Links α

structure Iterator (α : Type*) where
  /-- none is `kInvalidIndex` -/
  index : Option ℕ
  curr : Option α

namespace Lists

variable {α : Type*} (m : Lists α)

def size : ℕ := (m.lists.map DList.size).sum

/-- `operator bool` -/
def isValid (it : Iterator α) : Bool := it.index.any (· < m.lists.length)

def initToValidRBeginFrom : ℕ → Option (Iterator α)
  | 0 => m.lists[0]?.map fun d => if d.size = 0 then ⟨none, none⟩ else ⟨some 0, d.tail⟩
  | i + 1 =>
      m.lists[i + 1]?.bind fun d =>
        if d.size = 0 then initToValidRBeginFrom i else some ⟨some (i + 1), d.tail⟩

def rbegin : Option (Iterator α) :=
  if m.lists.length = 0 then none else m.initToValidRBeginFrom (m.lists.length - 1)

/-- The loop of `goForward`, with `curr` in the list `i` -/
def skipEnds : ℕ → Option α → Option (Iterator α)
  | 0, curr => m.lists[0]?.map fun _ => if curr.isNone then ⟨none, none⟩ else ⟨some 0, curr⟩
  | i + 1, curr =>
      m.lists[i + 1]?.bind fun _ =>
        if curr.isNone then m.lists[i]?.bind fun d => skipEnds i d.tail
        else some ⟨some (i + 1), curr⟩

def goForward (it : Iterator α) : Option (Iterator α) :=
  match it.index with
  | none => some it
  | some i => m.skipEnds i (it.curr.bind m.links.prev)

/-- The loop of `goBackward`, with `curr` in the list `i`, over this list and those after it -/
def skipBegins [DecidableEq α] : ℕ → Option α → List (DList α) → Iterator α
  | i, curr, [] => ⟨some i, curr⟩
  | i, curr, d :: rest =>
      if curr = d.tail then skipBegins (i + 1) (rest.head?.elim curr DList.head) rest
      else ⟨some i, curr⟩

def goBackward [DecidableEq α] (it : Iterator α) : Option (Iterator α) :=
  match it.index with
  | none => none
  | some i =>
      if i = m.lists.length then some it
      else
        m.lists[i]?.map fun d =>
          if it.curr ≠ d.tail then ⟨some i, it.curr.bind m.links.next⟩
          else skipBegins i it.curr (m.lists.drop i)

/-- The positions of the iterator from `it` on. There is no result if there are more than `rounds`
of them. -/
def walk : ℕ → Iterator α → Option (List (Iterator α))
  | 0, it => if m.isValid it then none else some []
  | rounds + 1, it =>
      if m.isValid it then (m.goForward it).bind fun next => (walk rounds next).map (it :: ·)
      else some []

/-- All of them, from `rbegin` on -/
def visits : Option (List (Iterator α)) := m.rbegin.bind (m.walk m.size)

/-- What each of the lists holds -/
abbrev AllHold (links : Links α) : List (DList α) → List (List α) → Prop :=
  List.Forall₂ fun d xs => d.Holds links xs

/-- No node is in two lists. -/
structure Holds (q : List (List α)) : Prop where
  list : AllHold m.links m.lists q
  nodup : q.flatten.Nodup

/-- The iterator is at the node. -/
def IsAt (it : Iterator α) (x : α) : Prop := m.isValid it = true ∧ it.curr = some x

variable {m} {q A B : List (List α)} {xs ys zs : List α} {x y : α} {it : Iterator α}

theorem isValid_iff : m.isValid it = true ↔ ∃ i, it.index = some i ∧ i < m.lists.length := by
  unfold isValid
  cases it.index <;> simp

theorem Holds.length_eq (h : m.Holds q) : m.lists.length = q.length := h.list.length_eq

theorem Holds.length_lt (h : m.Holds q) (hq : q = A ++ xs :: B) : A.length < m.lists.length := by
  rw [h.length_eq, hq, length_append, length_cons]
  omega

theorem Holds.size_eq (h : m.Holds q) : m.size = q.flatten.length := by
  have hlist := h.list
  rw [Lists.size, length_flatten]
  generalize m.lists = lists at hlist ⊢
  clear h
  induction hlist with
  | nil => rfl
  | cons hd _ ih => rw [map_cons, map_cons, sum_cons, sum_cons, hd.size_eq, ih]

theorem Holds.getElem? (h : m.Holds q) (hq : q = A ++ xs :: B) :
    ∃ d, m.lists[A.length]? = some d ∧ d.Holds m.links xs := by
  have hlist : AllHold m.links m.lists (A ++ xs :: B) := hq ▸ h.list
  clear hq
  generalize m.lists = lists at hlist ⊢
  induction A generalizing lists with
  | nil =>
      cases hlist with
      | cons hd _ => exact ⟨_, rfl, hd⟩
  | cons _ A ih =>
      cases hlist with
      | cons _ hrest => exact ih _ hrest

/-- A node is in one list only. -/
theorem Holds.eq_of_mem (h : m.Holds q) (hq : q = A ++ ys :: B) (hx : x ∈ ys) (hxs : xs ∈ q)
    (hx' : x ∈ xs) : xs = ys := by
  have hnodup := h.nodup
  rw [hq, flatten_append, flatten_cons, nodup_append', nodup_append'] at hnodup
  obtain ⟨-, ⟨-, -, hB⟩, hA⟩ := hnodup
  rw [hq, mem_append, mem_cons] at hxs
  rcases hxs with hxs | rfl | hxs
  · exact absurd (mem_append_left _ hx) (hA (mem_flatten_of_mem hxs hx'))
  · rfl
  · exact absurd (mem_flatten_of_mem hxs hx') (hB hx)

/-! ## Going forward -/

/-- The nodes that are still to come, from that of the iterator on -/
inductive Ahead (q : List (List α)) : Iterator α → List α → Prop
  | done : Ahead q ⟨none, none⟩ []
  | node {A B : List (List α)} {ys zs : List α} {x : α} (hq : q = A ++ (ys ++ x :: zs) :: B) :
      Ahead q ⟨some A.length, some x⟩ (x :: (A.flatten ++ ys).reverse)

theorem Ahead.curr_eq (h : Ahead q it xs) : it.curr = xs.head? := by
  cases h <;> rfl

theorem Ahead.isValid (h : m.Holds q) (hit : Ahead q it xs) : m.isValid it = !xs.isEmpty := by
  cases hit with
  | done => rfl
  | node hq => exact isValid_iff.mpr ⟨_, rfl, h.length_lt hq⟩

theorem Ahead.of_concat (hq : q = A ++ (ys ++ [y] ++ zs) :: B) :
    Ahead q ⟨some A.length, some y⟩ (A.flatten ++ (ys ++ [y])).reverse := by
  have hq' : q = A ++ (ys ++ y :: zs) :: B := by rw [hq, append_assoc, singleton_append]
  rw [← append_assoc, reverse_append]
  exact .node hq'

theorem ahead_skipEnds (h : m.Holds q) (hq : q = A ++ (ys ++ zs) :: B) :
    ∃ it, m.skipEnds A.length ys.getLast? = some it ∧ Ahead q it (A.flatten ++ ys).reverse := by
  induction A using reverseRecOn generalizing ys zs B with
  | nil =>
      obtain ⟨d, hd, -⟩ := h.getElem? hq
      rw [length_nil] at hd ⊢
      rw [skipEnds, hd]
      rcases eq_nil_or_concat ys with rfl | ⟨ys, y, rfl⟩
      · exact ⟨_, rfl, .done⟩
      · rw [concat_eq_append] at hq ⊢
        exact ⟨⟨some 0, some y⟩, by simp, .of_concat hq⟩
  | append_singleton A ws ih =>
      obtain ⟨d, hd, -⟩ := h.getElem? hq
      rw [length_append, length_singleton] at hd ⊢
      rw [skipEnds, hd, bind_some]
      rcases eq_nil_or_concat ys with rfl | ⟨ys, y, rfl⟩
      · -- on to the tail of the list below
        have hq' : q = A ++ (ws ++ []) :: (zs :: B) := by simpa using hq
        obtain ⟨d', hd', hholds⟩ := h.getElem? hq'
        rw [append_nil] at hholds
        obtain ⟨it, hit, hahead⟩ := ih hq'
        refine ⟨it, ?_, by simpa using hahead⟩
        rw [getLast?_nil, isNone_none, if_pos rfl, hd', bind_some, hholds.tail_eq,
          hit]
      · rw [concat_eq_append] at hq ⊢
        refine ⟨⟨some (A.length + 1), some y⟩, by simp, ?_⟩
        have hahead := Ahead.of_concat hq
        rwa [length_append, length_singleton] at hahead

theorem Ahead.goForward (h : m.Holds q) (hit : Ahead q it xs) :
    ∃ next, m.goForward it = some next ∧ Ahead q next xs.tail := by
  cases hit with
  | done => exact ⟨_, rfl, .done⟩
  | @node A B ys zs x hq =>
      obtain ⟨d, -, hholds⟩ := h.getElem? hq
      have hprev : m.links.prev x = ys.getLast? := hholds.of_append.1
      obtain ⟨next, hnext, hahead⟩ := ahead_skipEnds h hq
      refine ⟨next, ?_, hahead⟩
      show m.skipEnds A.length (m.links.prev x) = some next
      rw [hprev, hnext]

/-- The start is found like the next node. -/
theorem initToValidRBeginFrom_eq (h : m.Holds q) (hq : q = A ++ xs :: B) :
    m.initToValidRBeginFrom A.length = m.skipEnds A.length xs.getLast? := by
  induction A using reverseRecOn generalizing xs B with
  | nil =>
      obtain ⟨d, hd, hholds⟩ := h.getElem? hq
      rw [length_nil] at hd ⊢
      rw [initToValidRBeginFrom, skipEnds, hd, map_some, map_some, hholds.size_eq,
        hholds.tail_eq]
      cases xs <;> simp [getLast?_cons]
  | append_singleton A ws ih =>
      obtain ⟨d, hd, hholds⟩ := h.getElem? hq
      have hq' : q = A ++ ws :: (xs :: B) := by simpa using hq
      obtain ⟨d', hd', hholds'⟩ := h.getElem? hq'
      rw [length_append, length_singleton] at hd ⊢
      rw [initToValidRBeginFrom, skipEnds, hd, bind_some, bind_some, hd',
        bind_some, hholds.size_eq, hholds.tail_eq, hholds'.tail_eq, ih hq']
      cases xs <;> simp [getLast?_cons]

theorem ahead_rbegin (h : m.Holds q) (hne : m.lists ≠ []) :
    ∃ it, m.rbegin = some it ∧ Ahead q it q.flatten.reverse := by
  have hlength := h.length_eq
  rcases eq_nil_or_concat q with rfl | ⟨A, xs, hq⟩
  · exact absurd (length_eq_zero_iff.mp hlength) hne
  · rw [concat_eq_append] at hq
    have hlast : m.lists.length - 1 = A.length := by
      rw [hlength, hq, length_append]
      rfl
    have hq' : q = A ++ (xs ++ []) :: [] := by rwa [append_nil]
    obtain ⟨it, hit, hahead⟩ := ahead_skipEnds h hq'
    refine ⟨it, ?_, ?_⟩
    · rw [rbegin, if_neg fun hzero => hne (length_eq_zero_iff.mp hzero), hlast,
        initToValidRBeginFrom_eq h hq, hit]
    · have hflatten : q.flatten = A.flatten ++ xs := by simp [hq]
      rwa [hflatten]

/-- **The whole way** -/
theorem Ahead.walk (h : m.Holds q) (hit : Ahead q it xs) {rounds : ℕ} (hrounds : xs.length ≤ rounds) :
    ∃ its, m.walk rounds it = some its ∧ its.map Iterator.curr = xs.map some ∧
      ∀ k it', its[k]? = some it' → Ahead q it' (xs.drop k) := by
  induction rounds generalizing it xs with
  | zero =>
      obtain rfl := length_eq_zero_iff.mp (Nat.le_zero.mp hrounds)
      refine ⟨[], ?_, rfl, by simp⟩
      rw [Lists.walk, hit.isValid h]
      rfl
  | succ rounds ih =>
      rw [Lists.walk, hit.isValid h]
      cases xs with
      | nil => exact ⟨[], rfl, rfl, by simp⟩
      | cons x xs =>
          obtain ⟨next, hnext, hahead⟩ := hit.goForward h
          obtain ⟨its, hits, hcurr, hpositions⟩ := ih hahead (Nat.le_of_succ_le_succ hrounds)
          refine ⟨it :: its, ?_, ?_, ?_⟩
          · rw [hnext, bind_some, hits]
            rfl
          · rw [map_cons, map_cons, hcurr, hit.curr_eq]
            rfl
          · intro k it' hk
            cases k with
            | zero =>
                obtain rfl := some.inj hk
                exact hit
            | succ k => exact hpositions k it' hk

/-! ## And back again -/

section Backward

variable [DecidableEq α] {E : List (List α)} {ds : List (DList α)} {links : Links α} {i : ℕ}
  {curr : Option α}

/-- The loop of `goBackward` where it has come to an empty list -/
theorem skipBegins_nil {d : DList α} (hd : d.Holds links []) (hds : ds ≠ []) :
    skipBegins i d.head (d :: ds) = skipBegins (i + 1) (ds.head?.bind DList.head) ds := by
  rw [skipBegins, hd.head_eq, hd.tail_eq, head?_nil, getLast?_nil, if_pos rfl]
  obtain ⟨d', ds, rfl⟩ := exists_cons_of_ne_nil hds
  rfl

theorem skipBegins_append (h : AllHold links ds (E ++ (x :: zs) :: B)) (hE : E.flatten = []) :
    ∃ ds', AllHold links ds' B ∧ skipBegins i (ds.head?.bind DList.head) ds =
      if zs = [] then skipBegins (i + E.length + 1) (ds'.head?.elim (some x) DList.head) ds'
      else ⟨some (i + E.length), some x⟩ := by
  induction E generalizing ds i with
  | nil =>
      cases h with
      | @cons d _ ds' _ hd hrest =>
          refine ⟨ds', hrest, ?_⟩
          have hx : x ∉ zs := (nodup_cons.mp hd.nodup).1
          show skipBegins i d.head (d :: ds') = _
          rw [skipBegins, hd.head_eq, hd.tail_eq, head?_cons]
          rcases eq_nil_or_concat zs with rfl | ⟨zs, z, rfl⟩
          · rw [if_pos (by rfl), if_pos rfl]
            rfl
          · have hne : x ≠ z := fun heq => hx (by simp [heq])
            simp [getLast?_cons, hne]
  | cons ws E ih =>
      rw [flatten_cons, append_eq_nil_iff] at hE
      obtain ⟨rfl, hE⟩ := hE
      cases h with
      | @cons d _ ds' _ hd hrest =>
          obtain ⟨ds'', hds'', heq⟩ := ih hrest hE (i := i + 1)
          have hne : ds' ≠ [] := by
            rintro rfl
            cases E <;> cases hrest
          refine ⟨ds'', hds'', (skipBegins_nil hd hne).trans ?_⟩
          rw [heq, length_cons, Nat.add_right_comm i 1, Nat.add_assoc i E.length 1]

theorem skipBegins_mem (h : AllHold links ds B) (hcurr : ∀ d ∈ ds.head?, curr = d.head) {j : ℕ}
    (hj : (skipBegins i curr ds).index = some j) (hlt : j < i + ds.length)
    (hx : (skipBegins i curr ds).curr = some x) : x ∈ B.flatten := by
  induction h generalizing i curr with
  | nil =>
      rw [skipBegins] at hj
      obtain rfl := some.inj hj
      simp at hlt
  | @cons d xs ds B hd hrest ih =>
      obtain rfl : curr = d.head := hcurr d rfl
      rw [skipBegins] at hj hx
      rw [flatten_cons, mem_append]
      split_ifs at hj hx with hend
      · refine Or.inr (ih ?_ hj (by rw [length_cons] at hlt; omega) hx)
        intro d' hd'
        rw [mem_def.mp hd']
        rfl
      · left
        apply mem_of_head?
        rw [← hd.head_eq]
        exact hx

/-- Back from a node that is not the tail of its list -/
theorem goBackward_of_ne (h : m.Holds q) (hq : q = A ++ (ys ++ y :: x :: zs) :: B) :
    m.goBackward ⟨some A.length, some y⟩ = some ⟨some A.length, some x⟩ := by
  obtain ⟨d, hd, hholds⟩ := h.getElem? hq
  obtain ⟨-, hnext, -, -, -, -, hy⟩ := hholds.of_append
  have htail : some y ≠ d.tail := by
    intro heq
    rw [hholds.tail_eq, getLast?_append, getLast?_cons_cons] at heq
    exact hy (mem_of_getLast? (by simpa using heq.symm))
  show (if A.length = _ then _ else _) = _
  rw [if_neg (Nat.ne_of_lt (h.length_lt hq)), hd, map_some, if_pos htail, bind_some, hnext]
  rfl

/-- Back from the tail of a list, over empty ones -/
theorem goBackward_of_tail (h : m.Holds q)
    (hq : q = A ++ (ys ++ [y]) :: (E ++ (x :: zs) :: B)) (hE : E.flatten = []) :
    ∃ ds, AllHold m.links ds B ∧ m.goBackward ⟨some A.length, some y⟩ = some
      (if zs = [] then
        skipBegins (A.length + 1 + E.length + 1) (ds.head?.elim (some x) DList.head) ds
      else ⟨some (A.length + 1 + E.length), some x⟩) := by
  obtain ⟨d, hd, hholds⟩ := h.getElem? hq
  have hdrop : AllHold m.links (m.lists.drop A.length)
      ((ys ++ [y]) :: (E ++ (x :: zs) :: B)) := by
    have hdrop := forall₂_drop A.length h.list
    rwa [hq, drop_left] at hdrop
  generalize hds : m.lists.drop A.length = ds at hdrop
  cases hdrop with
  | @cons d' _ ds _ _ hrest =>
      obtain ⟨ds', hds', hskip⟩ := skipBegins_append (i := A.length + 1) hrest hE
      refine ⟨ds', hds', ?_⟩
      obtain rfl : d = d' := by
        have hhead := congrArg head? hds
        rw [head?_drop, hd] at hhead
        exact some.inj hhead
      have htail : some y = d.tail := by rw [hholds.tail_eq, getLast?_concat]
      have hhead : ds.head?.elim (some y) DList.head = ds.head?.bind DList.head := by
        cases ds with
        | nil => cases E <;> cases hrest
        | cons d' ds => rfl
      show (if A.length = _ then _ else _) = _
      rw [if_neg (Nat.ne_of_lt (h.length_lt hq)), hd, map_some, if_neg (not_not.mpr htail), hds,
        skipBegins, if_pos htail, hhead, hskip]

/-- **Where the way back leads over a border**, it leads to the head of the list there exactly if
that is not its tail. -/
theorem isAt_goBackward_iff (h : m.Holds q)
    (hq : q = A ++ (ys ++ [y]) :: (E ++ (x :: zs) :: B)) (hE : E.flatten = []) :
    (∃ it, m.goBackward ⟨some A.length, some y⟩ = some it ∧ m.IsAt it x) ↔ zs ≠ [] := by
  obtain ⟨ds, hds, hgo⟩ := goBackward_of_tail h hq hE
  have hcount : m.lists.length = A.length + 1 + E.length + 1 + B.length := by
    rw [h.length_eq, hq]
    simp only [length_append, length_cons]
    omega
  rw [hgo]
  by_cases hzs : zs = []
  · -- the loop goes on, and the node is in none of the lists after that
    subst hzs
    rw [if_pos rfl]
    refine iff_of_false ?_ (not_not.mpr rfl)
    rintro ⟨it, hit, hvalid, hcurr⟩
    obtain rfl := some.inj hit
    obtain ⟨j, hj, hlt⟩ := isValid_iff.mp hvalid
    rw [hcount, ← hds.length_eq] at hlt
    have hstart : ∀ d ∈ ds.head?, ds.head?.elim (some x) DList.head = d.head := by
      intro d hd
      rw [mem_def.mp hd]
      rfl
    have hmem := skipBegins_mem hds hstart hj hlt hcurr
    have hnodup := h.nodup
    rw [hq, ← cons_append, ← append_assoc, flatten_append, flatten_cons] at hnodup
    exact disjoint_of_nodup_append (nodup_append'.mp hnodup).2.1 mem_cons_self hmem
  · rw [if_neg hzs]
    exact iff_of_true ⟨_, rfl, isValid_iff.mpr ⟨_, rfl, by omega⟩, rfl⟩ hzs

omit [DecidableEq α] in
theorem exists_eq_append_of_flatten {t : List α} (h : B.flatten = x :: t) :
    ∃ E zs B', B = E ++ (x :: zs) :: B' ∧ E.flatten = [] := by
  induction B with
  | nil => simp at h
  | cons ws B ih =>
      cases ws with
      | nil =>
          obtain ⟨E, zs, B', rfl, hE⟩ := ih h
          exact ⟨[] :: E, zs, B', rfl, hE⟩
      | cons w ws =>
          obtain ⟨rfl, -⟩ := cons.inj h
          exact ⟨[], ws, B, rfl, rfl⟩

/-- **Forward and back** -/
theorem Ahead.returns_iff (h : m.Holds q) (hit : Ahead q it (x :: xs)) (hne : xs ≠ [])
    (hys : ys ∈ q) (hx : x ∈ ys) :
    (∃ it', (m.goForward it).bind m.goBackward = some it' ∧ m.IsAt it' x) ↔ 2 ≤ ys.length := by
  cases hit with
  | @node A B ws zs _ hq =>
      obtain ⟨next, hnext, hahead⟩ := (Ahead.node hq).goForward h
      rw [hnext, bind_some]
      rw [tail_cons] at hahead
      generalize hl : (A.flatten ++ ws).reverse = l at hahead hne
      cases hahead with
      | done => exact absurd rfl hne
      | @node A₁ B₁ ws₁ zs₁ y hq₁ =>
          -- in the list of all nodes, `x` comes right after `y`
          have hfront : A.flatten ++ ws = A₁.flatten ++ ws₁ ++ [y] := by
            rw [← reverse_inj, hl, reverse_concat]
          have hback : zs₁ ++ B₁.flatten = x :: (zs ++ B.flatten) := by
            have hall : q.flatten = A.flatten ++ ws ++ x :: (zs ++ B.flatten) := by
              rw [hq]
              simp
            have hall₁ : q.flatten = A₁.flatten ++ ws₁ ++ [y] ++ (zs₁ ++ B₁.flatten) := by
              rw [hq₁]
              simp
            rw [hfront] at hall
            exact append_cancel_left (hall₁.symm.trans hall)
          cases zs₁ with
          | cons z zs₁ =>
              -- both are in the same list
              obtain rfl : z = x := (cons.inj hback).1
              have hlength : 2 ≤ ys.length := by
                rw [h.eq_of_mem hq₁ (by simp) hys hx]
                simp only [length_append, length_cons]
                omega
              refine iff_of_true ⟨_, goBackward_of_ne h hq₁, ?_, rfl⟩ hlength
              exact isValid_iff.mpr ⟨_, rfl, h.length_lt hq₁⟩
          | nil =>
              obtain ⟨E, zs', B', rfl, hE⟩ := exists_eq_append_of_flatten hback
              have hq₂ : q = (A₁ ++ (ws₁ ++ [y]) :: E) ++ (x :: zs') :: B' := by
                rw [hq₁, append_assoc]
                rfl
              rw [isAt_goBackward_iff h hq₁ hE, h.eq_of_mem hq₂ mem_cons_self hys hx,
                length_cons, ← length_pos_iff]
              omega

/-- **What the iterator does.** It visits every node exactly once, from the last list to the first
one and within each from the tail to the head, exactly if there is a list at all. From a position
that is not the last one, a step forward and one back lead to the same node exactly if its list has
another one. -/
theorem visits_and_returns_iff (m : Lists α) (q : List (List α)) (h : m.Holds q) :
    ((∃ its, m.visits = some its ∧ its.map Iterator.curr = q.flatten.reverse.map some) ↔
      m.lists ≠ []) ∧
    ∀ its, m.visits = some its → ∀ k it, its[k]? = some it → k + 1 < its.length →
      ∀ x xs, it.curr = some x → xs ∈ q → x ∈ xs →
        ((∃ it', (m.goForward it).bind m.goBackward = some it' ∧ m.IsAt it' x) ↔ 2 ≤ xs.length) := by
  have hnil : m.lists = [] → m.visits = none := by
    intro hnil
    rw [visits, rbegin, hnil]
    rfl
  have hvisits : m.lists ≠ [] → ∃ its, m.visits = some its ∧
      its.map Iterator.curr = q.flatten.reverse.map some ∧
        ∀ k it, its[k]? = some it → Ahead q it (q.flatten.reverse.drop k) := by
    intro hne
    obtain ⟨it, hit, hahead⟩ := ahead_rbegin h hne
    rw [visits, hit, bind_some]
    exact hahead.walk h (Nat.le_of_eq (length_reverse.trans h.size_eq.symm))
  refine ⟨⟨?_, ?_⟩, ?_⟩
  · rintro ⟨its, hits, -⟩ hempty
    rw [hnil hempty] at hits
    exact absurd hits (by simp)
  · intro hne
    obtain ⟨its, hits, hcurr, -⟩ := hvisits hne
    exact ⟨its, hits, hcurr⟩
  · intro its hits k it hk hlast x xs hx hxs hmem
    have hne : m.lists ≠ [] := by
      intro hempty
      rw [hnil hempty] at hits
      exact absurd hits (by simp)
    obtain ⟨its', hits', hcurr, hahead⟩ := hvisits hne
    obtain rfl : its = its' := some.inj (hits.symm.trans hits')
    have hit := hahead k it hk
    have hlength := congrArg length hcurr
    rw [length_map, length_map] at hlength
    -- the nodes from that of the position on
    have hhead := hit.curr_eq
    rw [hx] at hhead
    obtain ⟨rest, hrest⟩ := head?_eq_some_iff.mp hhead.symm
    rw [hrest] at hit
    refine hit.returns_iff h ?_ hxs hmem
    rintro rfl
    have hcount := congrArg length hrest
    rw [length_drop, ← hlength, length_singleton] at hcount
    omega

end Backward

/-- Three lists, of one, one and two nodes -/
def small : Lists ℕ where
  lists := [⟨some 0, some 0, 1⟩, ⟨some 1, some 1, 1⟩, ⟨some 2, some 3, 2⟩]
  links := ⟨fun x => if x = 2 then some 3 else none, fun x => if x = 3 then some 2 else none⟩

theorem holds_small : small.Holds [[0], [1], [2, 3]] := by
  refine ⟨.cons ?_ (.cons ?_ (.cons ?_ .nil)), by decide⟩
  · exact ⟨rfl, rfl, rfl, ⟨rfl, rfl, trivial⟩, by decide⟩
  · exact ⟨rfl, rfl, rfl, ⟨rfl, rfl, trivial⟩, by decide⟩
  · exact ⟨rfl, rfl, rfl, ⟨rfl, rfl, rfl, rfl, trivial⟩, by decide⟩

theorem visits_and_returns_iff_small :
    (∃ its, small.visits = some its ∧ its.map Iterator.curr = [3, 2, 1, 0].map some) ∧
      ∃ it', (small.goForward ⟨some 2, some 2⟩).bind small.goBackward = some it' ∧
        small.IsAt it' 2 := by
  obtain ⟨hvisits, hreturns⟩ := visits_and_returns_iff small [[0], [1], [2, 3]] holds_small
  refine ⟨hvisits.mpr (by decide), ?_⟩
  exact (hreturns _ rfl 1 _ rfl (by decide) 2 [2, 3] rfl (by decide) (by decide)).mpr (by decide)

/-- **A list of one node is skipped on the way back.** From the node 1 it is one step forward to 0,
and one step back from there to 2. -/
theorem back_to_another_node :
    small.Holds [[0], [1], [2, 3]] ∧
      (small.visits.map fun its => its.map Iterator.curr) = some ([3, 2, 1, 0].map some) ∧
        small.goForward ⟨some 1, some 1⟩ = some ⟨some 0, some 0⟩ ∧
          small.goBackward ⟨some 0, some 0⟩ = some ⟨some 2, some 2⟩ :=
  ⟨holds_small, rfl, rfl, rfl⟩

end Lists

end CacheLib.MultiDListIterator
