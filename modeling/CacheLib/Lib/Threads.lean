/-
Threads as a list, and sums over them.

A pool of threads is a list; which of them moves is an index, and a move puts any number of threads
in the place of one: none if it ends, two if it starts another. An invariant that relates a counter
of the shared state to the threads says that the counter is a sum over the list. `total_replaceAt`
gives what a move does to every such sum at once.

`sum_update` is the same for a family with an entry for each index.
-/
import Mathlib.Algebra.BigOperators.Ring.Finset
import Mathlib.Algebra.BigOperators.Group.List.Basic
import Mathlib.Data.Set.Card

set_option autoImplicit false

namespace Threads

open List Finset Function

variable {τ : Type*}

/-- The sum of `f` over the threads -/
def total (f : τ → ℕ) (ts : List τ) : ℕ := (ts.map f).sum

/-- The threads `new` in the place of thread `i` -/
def replaceAt (ts : List τ) (i : ℕ) (new : List τ) : List τ :=
  ts.take i ++ new ++ ts.drop (i + 1)

variable {f : τ → ℕ} {ts : List τ} {t : τ}

@[simp] theorem total_nil : total f [] = 0 := rfl

@[simp] theorem total_cons (t : τ) (ts : List τ) : total f (t :: ts) = f t + total f ts :=
  sum_cons

@[simp] theorem total_append (ts ts' : List τ) : total f (ts ++ ts') = total f ts + total f ts' := by
  rw [total, map_append, sum_append]
  rfl

theorem split_at {i : ℕ} (h : ts[i]? = some t) : ts = ts.take i ++ t :: ts.drop (i + 1) := by
  obtain ⟨hlt, ht⟩ := List.getElem?_eq_some_iff.mp h
  rw [← ht, cons_getElem_drop_succ, take_append_drop]

/-- **What a move does to a sum**: the share of the thread goes, those of the new ones come. -/
theorem total_replaceAt {i : ℕ} (h : ts[i]? = some t) (new : List τ) :
    total f (replaceAt ts i new) + f t = total f ts + total f new := by
  have hsplit := congrArg (total f) (split_at h)
  rw [total_append, total_cons] at hsplit
  rw [replaceAt, total_append, total_append, hsplit]
  omega

theorem mem_replaceAt {i : ℕ} {new : List τ} {u : τ} (hu : u ∈ replaceAt ts i new) :
    u ∈ ts ∨ u ∈ new := by
  rw [replaceAt, mem_append, mem_append] at hu
  rcases hu with (hu | hu) | hu
  · exact Or.inl (mem_of_mem_take hu)
  · exact Or.inr hu
  · exact Or.inl (mem_of_mem_drop hu)

theorem le_total (h : t ∈ ts) : f t ≤ total f ts := by
  obtain ⟨front, back, rfl⟩ := append_of_mem h
  rw [total_append, total_cons]
  omega

theorem total_eq_zero (h : ∀ t ∈ ts, f t = 0) : total f ts = 0 := by
  rw [total, List.sum_eq_zero]
  intro n hn
  obtain ⟨t, ht, rfl⟩ := mem_map.mp hn
  exact h t ht

theorem exists_of_total_pos (h : 0 < total f ts) : ∃ t ∈ ts, 0 < f t := by
  by_contra hnone
  have hzero : total f ts = 0 := by
    apply total_eq_zero
    intro t ht
    by_contra hpos
    exact hnone ⟨t, ht, Nat.pos_of_ne_zero hpos⟩
  omega

theorem total_add (f g : τ → ℕ) (ts : List τ) :
    total (fun t => f t + g t) ts = total f ts + total g ts := by
  rw [total, sum_map_add]
  rfl

/-- There are no more threads of a kind than the sum, if each of them has a share in it. -/
theorem countP_le_total {p : τ → Bool} (h : ∀ t ∈ ts, p t = true → 1 ≤ f t) :
    ts.countP p ≤ total f ts := by
  induction ts with
  | nil => simp
  | cons t ts ih =>
      have hrest := ih fun u hu => h u (mem_cons_of_mem t hu)
      rw [countP_cons, total_cons]
      split
      · have hone := h t mem_cons_self (by assumption)
        omega
      · omega

theorem replaceAt_self {i : ℕ} (h : ts[i]? = some t) : replaceAt ts i [t] = ts := by
  rw [replaceAt, append_assoc, singleton_append]
  exact (split_at h).symm

/-- A change of one entry in a sum over all of them -/
theorem sum_update {ι α : Type*} [Fintype ι] [DecidableEq ι] (g : α → ℕ) (a : ι → α) (i : ι)
    (x : α) : ∑ j, g (update a i x j) + g (a i) = ∑ j, g (a j) + g x := by
  have hrest : ∑ j ∈ univ.erase i, g (update a i x j)
      = ∑ j ∈ univ.erase i, g (a j) := by
    apply sum_congr rfl
    intro j hj
    rw [update_of_ne (ne_of_mem_erase hj)]
  have hold := add_sum_erase univ (fun j => g (a j)) (mem_univ i)
  have hnew := add_sum_erase univ (fun j => g (update a i x j))
    (mem_univ i)
  simp only [update_self] at hnew hold
  omega

/-- A sum of marks counts what is marked. -/
theorem sum_toNat {ι : Type*} [Fintype ι] (b : ι → Bool) :
    ∑ i, (b i).toNat = Set.ncard { i | b i = true } := by
  have hset : { i | b i = true } = (univ.filter fun i => b i = true : Finset ι) := by
    ext i
    simp only [Set.mem_ofPred_eq, coe_filter, mem_univ, true_and]
  rw [hset, Set.ncard_coe_finset, card_filter]
  refine sum_congr rfl fun i _ => ?_
  cases b i <;> rfl

end Threads
