/-
Singly linked chains whose links are in the nodes.

`Path next head xs tail` says that from `head` on the links lead through the nodes `xs` to `tail`; a
chain is a path to nothing. A path is taken apart like a list (`path_append`), it depends on the links
of its own nodes only (`Path.congr`), and its end can be linked elsewhere (`Path.redirect`).

A loop that looks for a node remembers the one it came from. `walk` is that loop, for at most so many
rounds; on a chain that is not longer it finds what `find?` finds (`walk_eq`).
-/
import Mathlib.Data.List.Nodup
import Mathlib.Data.List.TakeWhile
import Mathlib.Logic.Function.Basic

set_option autoImplicit false

namespace Chain

open List Option

variable {α : Type*}

def Path (next : α → Option α) : Option α → List α → Option α → Prop
  | head, [], tail => head = tail
  | head, x :: xs, tail => head = some x ∧ Path next (next x) xs tail

variable {next next' : α → Option α} {head tail tail' : Option α} {xs ys : List α} {x : α}

theorem path_append :
    Path next head (xs ++ ys) tail ↔ ∃ mid, Path next head xs mid ∧ Path next mid ys tail := by
  induction xs generalizing head with
  | nil =>
      constructor
      · exact fun h => ⟨head, rfl, h⟩
      · rintro ⟨mid, rfl, h⟩
        exact h
  | cons x xs ih =>
      simp only [cons_append, Path, ih]
      constructor
      · rintro ⟨hx, mid, hxs, hys⟩
        exact ⟨mid, ⟨hx, hxs⟩, hys⟩
      · rintro ⟨mid, ⟨hx, hxs⟩, hys⟩
        exact ⟨hx, mid, hxs, hys⟩

theorem Path.congr (h : Path next head xs tail) (hagree : ∀ x ∈ xs, next' x = next x) :
    Path next' head xs tail := by
  induction xs generalizing head with
  | nil => exact h
  | cons x xs ih =>
      refine ⟨h.1, ?_⟩
      rw [hagree x mem_cons_self]
      exact ih h.2 fun y hy => hagree y (mem_cons_of_mem x hy)

theorem Path.unique (hxs : Path next head xs none) (hys : Path next head ys none) : xs = ys := by
  induction xs generalizing head ys with
  | nil =>
      cases ys with
      | nil => rfl
      | cons y ys => exact nomatch hxs.symm.trans hys.1
  | cons x xs ih =>
      cases ys with
      | nil => exact nomatch hys.symm.trans hxs.1
      | cons y ys =>
          obtain rfl : x = y := some.inj (hxs.1.symm.trans hys.1)
          rw [ih hxs.2 hys.2]

section Links

variable [DecidableEq α]

/-- The links with that of a node set, if there is one. -/
def setLink (next : α → Option α) (prev link : Option α) : α → Option α :=
  match prev with
  | none => next
  | some prev => Function.update next prev link

/-- The first link, if there is no node before it. -/
def setHead (head prev link : Option α) : Option α :=
  match prev with
  | none => link
  | some _ => head

theorem setLink_of_ne {prev : Option α} (h : prev ≠ some x) (next : α → Option α) (link : Option α) :
    setLink next prev link x = next x := by
  cases prev with
  | none => rfl
  | some prev => exact Function.update_of_ne (fun heq => h (congrArg some heq.symm)) _ _

/-- The end of a path can be linked elsewhere. -/
theorem Path.redirect (h : Path next head xs tail) (hnodup : xs.Nodup) (tail' : Option α) :
    Path (setLink next xs.getLast? tail') (setHead head xs.getLast? tail') xs tail' := by
  rcases eq_nil_or_concat xs with rfl | ⟨ys, y, rfl⟩
  · rfl
  rw [concat_eq_append] at h hnodup ⊢
  obtain ⟨mid, hys, hmid, -⟩ := path_append.mp h
  rw [getLast?_concat, path_append]
  refine ⟨mid, ?_, hmid, Function.update_self ..⟩
  refine hys.congr fun x hx => setLink_of_ne ?_ next tail'
  rintro ⟨⟩
  exact disjoint_of_nodup_append hnodup hx (mem_singleton_self y)

end Links

/-- `while (curr && !stop(curr)) { prev = curr; curr = next(curr); }` -/
def walk (next : α → Option α) (stop : α → Bool) :
    ℕ → Option α → Option α → Option α × Option α
  | 0, prev, curr => (prev, curr)
  | _ + 1, prev, none => (prev, none)
  | n + 1, prev, some x => if stop x then (prev, some x) else walk next stop n (some x) (next x)

/-- The nodes that a loop over the chain meets -/
def collect (next : α → Option α) : ℕ → Option α → List α
  | 0, _ => []
  | _ + 1, none => []
  | n + 1, some x => x :: collect next n (next x)

theorem collect_eq {n : ℕ} (h : Path next head xs none) (hn : xs.length ≤ n) :
    collect next n head = xs := by
  induction n generalizing head xs with
  | zero =>
      obtain rfl := eq_nil_of_length_eq_zero (Nat.le_zero.mp hn)
      rfl
  | succ n ih =>
      cases xs with
      | nil =>
          obtain rfl : head = none := h
          rfl
      | cons x xs =>
          obtain ⟨rfl, htail⟩ := h
          rw [collect, ih htail (Nat.le_of_succ_le_succ hn)]

/-- The nodes that the loop goes past -/
def passed (stop : α → Bool) (xs : List α) : List α := xs.takeWhile fun x => !stop x

theorem walk_eq {stop : α → Bool} {n : ℕ} (h : Path next head xs none) (hn : xs.length ≤ n)
    (prev : Option α) :
    walk next stop n prev head = ((passed stop xs).getLast?.or prev, xs.find? stop) := by
  induction n generalizing head xs prev with
  | zero =>
      obtain rfl := eq_nil_of_length_eq_zero (Nat.le_zero.mp hn)
      obtain rfl : head = none := h
      rfl
  | succ n ih =>
      cases xs with
      | nil =>
          obtain rfl : head = none := h
          rfl
      | cons x xs =>
          obtain ⟨rfl, htail⟩ := h
          rw [walk, passed]
          cases hx : stop x with
          | true => simp [hx]
          | false =>
              rw [if_neg nofun, ih htail (Nat.le_of_succ_le_succ hn), takeWhile_cons, hx,
                find?_cons, hx]
              simp [passed, getLast?_cons, or_some]

/-- The chain around the node that the loop finds -/
theorem find_split {stop : α → Bool} (h : xs.find? stop = some x) :
    stop x = true ∧ ∃ ys, xs = passed stop xs ++ x :: ys := by
  induction xs with
  | nil => exact nomatch h
  | cons y xs ih =>
      rw [find?_cons] at h
      rw [passed, takeWhile_cons]
      cases hy : stop y with
      | true =>
          rw [hy] at h
          obtain rfl := some.inj h
          exact ⟨hy, xs, rfl⟩
      | false =>
          rw [hy] at h
          obtain ⟨hx, ys, hys⟩ := ih h
          refine ⟨hx, ys, ?_⟩
          exact congrArg (y :: ·) hys

end Chain
