/-
A whole number of units divided in proportion to weights.

The exact part of `i` is `w i * amount / total`. Everybody first gets the whole units of it, its
`share`. What is left over is at most one unit for each part that is not whole, so it can be
handed out one unit each to such parts, and then nobody is a unit away from the exact part.
-/
import Mathlib.Algebra.Order.BigOperators.Group.List
import Mathlib.Data.Rat.Cast.Order
import Mathlib.Tactic.Linarith

set_option autoImplicit false

namespace Apportion

variable {α : Type*} (w : α → ℕ) (amount total : ℕ)

/-- The whole units of the part of `i`. -/
def share (i : α) : ℕ := w i * amount / total

/-- The part of `i` is not whole. -/
def Uneven (i : α) : Prop := share w amount total i * total < w i * amount

instance : DecidablePred (Uneven w amount total) := fun _ => Nat.decLt _ _

theorem share_mul_le (i : α) : share w amount total i * total ≤ w i * amount :=
  Nat.div_mul_le_self _ _

variable {total} in
theorem lt_share_mul_add (htotal : 0 < total) (i : α) :
    w i * amount < share w amount total i * total + total := by
  have hsucc := Nat.lt_mul_div_succ (w i * amount) htotal
  rwa [Nat.mul_comm total, Nat.add_mul, Nat.one_mul] at hsucc

/-- The shares are not more than there is. -/
theorem sum_share_le {l : List α} (htotal : 0 < total) (hw : (l.map w).sum = total) :
    (l.map (share w amount total)).sum ≤ amount := by
  have hmul : ∀ k : List α,
      (k.map (share w amount total)).sum * total ≤ (k.map w).sum * amount := by
    intro k
    induction k with
    | nil => simp
    | cons i k ih =>
        have hi := share_mul_le w amount total i
        simp only [List.map_cons, List.sum_cons, Nat.add_mul]
        omega
  have hall := hmul l
  rw [hw, Nat.mul_comm total] at hall
  exact Nat.le_of_mul_le_mul_right hall htotal

/-- One more unit for each uneven part would be enough. -/
theorem le_sum_share_add_countP {l : List α} (htotal : 0 < total) (hw : (l.map w).sum = total) :
    amount ≤ (l.map (share w amount total)).sum
      + l.countP fun i => decide (Uneven w amount total i) := by
  have hmul : ∀ k : List α, (k.map w).sum * amount ≤
      ((k.map (share w amount total)).sum
        + k.countP fun i => decide (Uneven w amount total i)) * total := by
    intro k
    induction k with
    | nil => simp
    | cons i k ih =>
        have hhigh := lt_share_mul_add w amount htotal i
        rw [List.countP_cons]
        simp only [List.map_cons, List.sum_cons, Nat.add_mul, decide_eq_true_eq] at ih ⊢
        split
        · omega
        · rename_i hwhole
          rw [Uneven] at hwhole
          omega
  have hall := hmul l
  rw [hw, Nat.mul_comm total] at hall
  exact Nat.le_of_mul_le_mul_right hall htotal

variable {w amount total}

/-- A share, or a share and one unit for an uneven part, is less than a unit from the exact part. -/
theorem abs_sub_exact_lt_one {t : ℕ} {i : α} (htotal : 0 < total)
    (ht : t = share w amount total i ∨ (Uneven w amount total i ∧ t = share w amount total i + 1)) :
    |(t : ℚ) - w i * amount / total| < 1 := by
  have hbounds : t * total < w i * amount + total ∧ w i * amount < t * total + total := by
    have hlow := share_mul_le w amount total i
    have hhigh := lt_share_mul_add w amount htotal i
    rcases ht with rfl | ⟨huneven, rfl⟩
    · omega
    · rw [Uneven] at huneven
      rw [Nat.add_mul, Nat.one_mul]
      omega
  have hpos : (0 : ℚ) < total := by exact_mod_cast htotal
  have hupper : (t : ℚ) * total < w i * amount + total := by exact_mod_cast hbounds.1
  have hlower : (w i : ℚ) * amount < t * total + total := by exact_mod_cast hbounds.2
  rw [abs_sub_lt_iff]
  constructor
  · rw [sub_lt_comm, lt_div_iff₀ hpos, sub_mul, one_mul]
    linarith
  · rw [sub_lt_iff_lt_add', div_lt_iff₀ hpos, add_mul, one_mul]
    linarith

/-- What all are short of together is not more than what each one is short of, added up. -/
theorem sum_sub_sum_le (a b : α → ℕ) (l : List α) :
    (l.map a).sum - (l.map b).sum ≤ (l.map fun i => a i - b i).sum := by
  induction l with
  | nil => simp
  | cons i l ih =>
      simp only [List.map_cons, List.sum_cons]
      omega

end Apportion
