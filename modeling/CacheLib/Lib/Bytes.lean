/-
Byte memories, and numbers laid out in them.

A memory is a byte for every address; who owns how much of it is the business of
the program that uses it. `read` takes a range out, `write` puts bytes in and
`copy` puts a range of another memory in. The laws come in two kinds: what was
put in is read back, and what lies outside the range that was written reads as
before.
-/
import Mathlib.Algebra.Order.Ring.Nat
import Mathlib.Data.List.GetD
import Mathlib.Data.List.Range
import Mathlib.Tactic.Ring

set_option autoImplicit false

namespace Bytes

open List

/-- A byte for every address. -/
abbrev Memory := ℕ → UInt8

/-- The `n` bytes from `a` on. -/
def read (m : Memory) (a n : ℕ) : List UInt8 := (range n).map fun i => m (a + i)

/-- `bs` put at `a`. -/
def write (m : Memory) (a : ℕ) (bs : List UInt8) : Memory := fun i =>
  if a ≤ i then bs.getD (i - a) (m i) else m i

/-- The first `n` bytes of `src` put at `a`. -/
def copy (m : Memory) (a : ℕ) (src : Memory) (n : ℕ) : Memory := fun i =>
  if a ≤ i ∧ i < a + n then src (i - a) else m i

variable {m m' src : Memory} {a b n i : ℕ} {bs : List UInt8}

/-! ## Ranges -/

@[simp] theorem length_read : (read m a n).length = n := by
  rw [read, length_map, length_range]

theorem getElem_read (h : i < (read m a n).length) : (read m a n)[i] = m (a + i) := by
  simp only [read, getElem_map, getElem_range]

/-- A range reads the same in two memories that agree on it. -/
theorem read_congr (h : ∀ i, a ≤ i → i < a + n → m i = m' i) : read m a n = read m' a n := by
  apply map_congr_left
  intro i hi
  have hlt : i < n := mem_range.mp hi
  exact h (a + i) (by omega) (by omega)

/-- A window into a memory reads as the memory does, at the shifted address. -/
theorem read_shift (m : Memory) (b a n : ℕ) :
    read (fun i => m (b + i)) a n = read m (b + a) n := by
  apply map_congr_left
  intro i _
  exact congrArg m (Nat.add_assoc b a i).symm

/-! ## What a write changes -/

theorem write_of_outside (h : i < a ∨ a + bs.length ≤ i) : write m a bs i = m i := by
  rcases h with h | h
  · exact if_neg (by omega)
  · rw [write, if_pos (by omega), getD_eq_default _ _ (by omega)]

theorem write_of_mem (h : i < bs.length) : write m a bs (a + i) = bs[i] := by
  rw [write, if_pos (by omega), Nat.add_sub_cancel_left, getD_eq_getElem _ _ h]

theorem read_write_of_disjoint (h : a + n ≤ b ∨ b + bs.length ≤ a) :
    read (write m b bs) a n = read m a n := by
  apply read_congr
  intro i hai hin
  exact write_of_outside (by omega)

/-- **What was written is read back**, also when it is only a part of what was
written. -/
theorem read_write_part (m : Memory) (a : ℕ) (xs ys zs : List UInt8) :
    read (write m a (xs ++ ys ++ zs)) (a + xs.length) ys.length = ys := by
  apply ext_getElem length_read
  intro i _ hi
  have hlt : xs.length + i < (xs ++ ys ++ zs).length := by
    simp only [length_append]
    omega
  simp only [read, getElem_map, getElem_range]
  rw [Nat.add_assoc, write_of_mem hlt, getElem_append_left (by simpa using hi),
    getElem_append_right (by omega)]
  simp only [Nat.add_sub_cancel_left]

theorem read_write (m : Memory) (a : ℕ) (bs : List UInt8) :
    read (write m a bs) a bs.length = bs := by
  simpa using read_write_part m a [] bs []

theorem copy_of_outside (h : i < a ∨ a + n ≤ i) : copy m a src n i = m i :=
  if_neg (by omega)

theorem copy_of_mem (h : i < n) : copy m a src n (a + i) = src i := by
  rw [copy, if_pos ⟨Nat.le_add_right a i, by omega⟩, Nat.add_sub_cancel_left]

theorem copy_zero_of_mem (h : i < n) : copy m 0 src n i = src i :=
  if_pos ⟨Nat.zero_le i, by omega⟩

/-! ## Little-endian numbers -/

/-- The `w` low bytes of `n`, the lowest first. -/
def toLE (w n : ℕ) : List UInt8 := (range w).map fun i => UInt8.ofNat (n / 256 ^ i)

/-- The number whose bytes are `bs`, the lowest first. -/
def ofLE (bs : List UInt8) : ℕ := bs.foldr (fun b n => b.toNat + 256 * n) 0

@[simp] theorem length_toLE (w n : ℕ) : (toLE w n).length = w := by
  rw [toLE, length_map, length_range]

theorem toLE_succ (w n : ℕ) : toLE (w + 1) n = UInt8.ofNat n :: toLE w (n / 256) := by
  rw [toLE, range_succ_eq_map, map_cons, map_map, pow_zero, Nat.div_one]
  congr 1
  apply map_congr_left
  intro i _
  rw [Function.comp_apply, Nat.succ_eq_add_one, pow_succ', Nat.div_div_eq_div_mul]

/-- A number that fits is the number read back. -/
theorem ofLE_toLE {w n : ℕ} (h : n < 256 ^ w) : ofLE (toLE w n) = n := by
  induction w generalizing n with
  | zero =>
      rw [pow_zero] at h
      exact (Nat.lt_one_iff.mp h).symm
  | succ w ih =>
      have hdiv : n / 256 < 256 ^ w := by
        rw [pow_succ'] at h
        exact Nat.div_lt_of_lt_mul h
      rw [toLE_succ, ofLE, foldr_cons, ← ofLE, ih hdiv, UInt8.toNat_ofNat']
      exact Nat.mod_add_div n 256

theorem uint32_ofLE_toLE (x : UInt32) : UInt32.ofNat (ofLE (toLE 4 x.toNat)) = x := by
  rw [ofLE_toLE x.toNat_lt, UInt32.ofNat_toNat]

theorem uint64_ofLE_toLE (x : UInt64) : UInt64.ofNat (ofLE (toLE 8 x.toNat)) = x := by
  rw [ofLE_toLE x.toNat_lt, UInt64.ofNat_toNat]

/-! ## Contents

What stands at an address, as a list: a layout is then an equation about lists, and
records one after another are lists appended to each other. -/

/-- The bytes from `a` on are `bs`. -/
def At (m : Memory) (a : ℕ) (bs : List UInt8) : Prop := read m a bs.length = bs

/-- `memmove`: the bytes are read before the first one is written. -/
def memmove (m : Memory) (dst src n : ℕ) : Memory := write m dst (read m src n)

theorem read_add (m : Memory) (a n k : ℕ) : read m a (n + k) = read m a n ++ read m (a + n) k := by
  rw [read, range_add, map_append, map_map]
  congr 1
  apply map_congr_left
  intro i _
  rw [Function.comp_apply, Nat.add_assoc]

@[simp] theorem at_nil : At m a [] := rfl

theorem at_append {xs ys : List UInt8} :
    At m a (xs ++ ys) ↔ At m a xs ∧ At m (a + xs.length) ys := by
  rw [At, length_append, read_add]
  constructor
  · intro h
    exact append_inj h length_read
  · rintro ⟨hxs, hys⟩
    rw [hxs, hys]

theorem at_write (m : Memory) (a : ℕ) (bs : List UInt8) : At (write m a bs) a bs :=
  read_write m a bs

theorem At.write_of_disjoint {cs : List UInt8} (h : At m a bs)
    (hdisj : a + bs.length ≤ b ∨ b + cs.length ≤ a) : At (write m b cs) a bs := by
  rw [At, read_write_of_disjoint hdisj]
  exact h

/-- What is moved arrives, overlap or not. -/
theorem At.memmove (h : At m b bs) (a : ℕ) : At (memmove m a b bs.length) a bs := by
  rw [Bytes.memmove, h]
  exact at_write m a bs

theorem At.memmove_of_disjoint (h : At m a bs)
    (hdisj : a + bs.length ≤ b ∨ b + n ≤ a) (src : ℕ) : At (Bytes.memmove m b src n) a bs :=
  h.write_of_disjoint (by rwa [length_read])

theorem At.ofLE_read {w k : ℕ} (h : At m a (toLE w k)) (hk : k < 256 ^ w) :
    ofLE (read m a w) = k := by
  rw [At, length_toLE] at h
  rw [h, ofLE_toLE hk]

end Bytes
