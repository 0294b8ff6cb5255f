/-
Which of two elements comes first in a list.

"`x` comes before `y` in `l`" is `[x, y] <+ l`, the two-element list is a
sublist; what follows `x` in the list (`after x l`) is what `x` comes before.
-/
import Mathlib.Data.List.Basic

set_option autoImplicit false

namespace ListOrder

open scoped List

variable {α : Type*} {x y : α} {l : List α}

/-- Where a pair can stand in a list with one more element at its end. -/
theorem pair_sublist_append_singleton {x y z : α}
    (h : [x, y] <+ l ++ [z]) : [x, y] <+ l ∨ (x ∈ l ∧ y = z) := by
  obtain ⟨l₁, l₂, heq, h₁, h₂⟩ := List.sublist_append_iff.mp h
  rcases l₁ with _ | ⟨a, _ | ⟨b, l₁⟩⟩
  · -- two elements do not fit into `[z]`
    rw [List.nil_append] at heq
    have := h₂.length_le
    simp [← heq] at this
  · obtain ⟨rfl, rfl⟩ := List.cons_eq_cons.mp heq
    exact Or.inr ⟨List.singleton_sublist.mp h₁, by simpa using h₂⟩
  · simp only [List.cons_append, List.cons.injEq] at heq
    obtain ⟨rfl, rfl, hnil⟩ := heq
    rw [List.append_eq_nil_iff.mp hnil.symm |>.1] at h₁
    exact Or.inl h₁

theorem left_mem_of_pair_sublist (h : [x, y] <+ l) : x ∈ l :=
  h.subset List.mem_cons_self

theorem right_mem_of_pair_sublist (h : [x, y] <+ l) : y ∈ l :=
  h.subset (List.mem_cons_of_mem _ List.mem_cons_self)

/-- A pair is in a list with one more element at its head. -/
theorem pair_sublist_cons_iff {x y z : α} :
    [x, y] <+ z :: l ↔ [x, y] <+ l ∨ (x = z ∧ y ∈ l) := by
  rw [List.sublist_cons_iff]
  constructor
  · rintro (h | ⟨r, hr, h⟩)
    · exact Or.inl h
    · obtain ⟨rfl, rfl⟩ := List.cons_eq_cons.mp hr
      exact Or.inr ⟨rfl, List.singleton_sublist.mp h⟩
  · rintro (h | ⟨rfl, hy⟩)
    · exact Or.inl h
    · exact Or.inr ⟨[y], rfl, List.singleton_sublist.mpr hy⟩

/-- Two distinct members stand in one order or the other. -/
theorem pair_sublist_total (hx : x ∈ l) (hy : y ∈ l) (hne : x ≠ y) :
    [x, y] <+ l ∨ [y, x] <+ l := by
  induction l with
  | nil => simp at hx
  | cons z l ih =>
      rw [pair_sublist_cons_iff, pair_sublist_cons_iff]
      rcases List.mem_cons.mp hx with rfl | hx'
      · rcases List.mem_cons.mp hy with rfl | hy'
        · exact absurd rfl hne
        · exact Or.inl (Or.inr ⟨rfl, hy'⟩)
      · rcases List.mem_cons.mp hy with rfl | hy'
        · exact Or.inr (Or.inr ⟨rfl, hx'⟩)
        · rcases ih hx' hy' with h | h
          · exact Or.inl (Or.inl h)
          · exact Or.inr (Or.inl h)

/-- Without repetitions not in both. -/
theorem pair_sublist_asymm (hnodup : l.Nodup) (h : [x, y] <+ l) :
    ¬ [y, x] <+ l := by
  induction l with
  | nil => simp at h
  | cons z l ih =>
      obtain ⟨hz, hnodup⟩ := List.nodup_cons.mp hnodup
      rw [pair_sublist_cons_iff] at h ⊢
      rintro (h' | ⟨rfl, hx⟩)
      · rcases h with h | ⟨rfl, hy⟩
        · exact ih hnodup h h'
        · exact hz (right_mem_of_pair_sublist h')
      · rcases h with h | ⟨rfl, hy⟩
        · exact hz (right_mem_of_pair_sublist h)
        · exact hz hy

section After

variable [DecidableEq α]

/-- What follows the first `x` of the list, nothing if there is none. -/
def after (x : α) (l : List α) : List α := (l.dropWhile (fun y => y != x)).tail

theorem mem_after_iff : y ∈ after x l ↔ [x, y] <+ l := by
  induction l with
  | nil => simp [after]
  | cons z l ih =>
      by_cases h : z = x
      · rw [h, List.cons_sublist_cons, List.singleton_sublist]
        simp [after]
      · have : after x (z :: l) = after x l := by
          unfold after
          rw [List.dropWhile_cons_of_pos (by simpa using h)]
        rw [this, ih, pair_sublist_cons_iff]
        exact ⟨Or.inl, fun h' => h'.resolve_right fun hc => h hc.1.symm⟩

theorem after_append_cons {x : α} {l₁ l₂ : List α} (h : x ∉ l₁) : after x (l₁ ++ x :: l₂) = l₂ := by
  have hall : ∀ y ∈ l₁, (y != x) = true := by
    intro y hy
    simp only [bne_iff_ne]
    rintro rfl
    exact h hy
  unfold after
  rw [List.dropWhile_append_of_pos hall, List.dropWhile_cons_of_neg (by simp), List.tail_cons]

theorem after_suffix (x : α) (l : List α) : after x l <:+ l :=
  (List.tail_suffix _).trans (List.dropWhile_suffix _)

end After

end ListOrder
