/-
Bits in an array of bytes.

Bit `n` is bit `n % 8` of byte `n / 8`. An access outside of the array has no result. What
`set` does is said by what `get` returns afterwards.
-/
import Mathlib.Algebra.Order.Ring.Nat
import Mathlib.Data.List.Basic

set_option autoImplicit false

namespace BitArray

open List Option

/-- The byte that has only bit `n % 8`. -/
def mask (n : ℕ) : BitVec 8 := 1#8 <<< (n % 8)

def get (bytes : List (BitVec 8)) (n : ℕ) : Option Bool :=
  bytes[n / 8]?.map fun byte => byte &&& mask n ≠ 0#8

def set (bytes : List (BitVec 8)) (n : ℕ) : Option (List (BitVec 8)) :=
  bytes[n / 8]?.map fun byte => bytes.set (n / 8) (byte ||| mask n)

variable {bytes bytes' : List (BitVec 8)} {n k : ℕ}

theorem and_mask_ne_zero (byte : BitVec 8) (n : ℕ) :
    byte &&& mask n ≠ 0#8 ↔ byte.getLsbD (n % 8) = true := by
  have hn : n % 8 < 8 := Nat.mod_lt n (by decide)
  rw [mask, ← BitVec.twoPow_eq, BitVec.and_twoPow]
  cases byte.getLsbD (n % 8) with
  | false => simp
  | true =>
      have hne : BitVec.twoPow 8 (n % 8) ≠ 0#8 := by
        intro hzero
        have hbit := congrArg (·.getLsbD (n % 8)) hzero
        simp [hn] at hbit
      simpa using hne

theorem get_eq_getLsbD (bytes : List (BitVec 8)) (n : ℕ) :
    get bytes n = bytes[n / 8]?.map (·.getLsbD (n % 8)) := by
  rw [get]
  congr 1
  funext byte
  rw [Bool.eq_iff_iff, decide_eq_true_iff, and_mask_ne_zero]

theorem get_eq_none_iff : get bytes n = none ↔ bytes.length ≤ n / 8 := by
  rw [get, map_eq_none_iff, getElem?_eq_none_iff]

theorem set_eq_none_iff : set bytes n = none ↔ bytes.length ≤ n / 8 := by
  rw [set, map_eq_none_iff, getElem?_eq_none_iff]

/-- A bit inside of the array can be set, and no other bit changes. -/
theorem get_of_set (h : set bytes n = some bytes') (k : ℕ) :
    bytes'.length = bytes.length ∧ get bytes' k = (get bytes k).map (· || n = k) := by
  obtain ⟨byte, hbyte, rfl⟩ := map_eq_some_iff.mp h
  have hlt : n / 8 < bytes.length := (List.getElem?_eq_some_iff.mp hbyte).1
  have hn : n % 8 < 8 := Nat.mod_lt n (by decide)
  have hsame : n = k ↔ n / 8 = k / 8 ∧ n % 8 = k % 8 := by omega
  refine ⟨length_set, ?_⟩
  rw [get_eq_getLsbD, get_eq_getLsbD, getElem?_set, if_pos hlt]
  by_cases hplace : n / 8 = k / 8
  · rw [if_pos hplace, ← hplace, hbyte]
    simp only [map_some, mask, ← BitVec.twoPow_eq, BitVec.getLsbD_or, BitVec.getLsbD_twoPow,
      decide_eq_true hn, Bool.true_and, hsame, hplace, true_and]
  · rw [if_neg hplace, Option.map_map]
    simp only [Function.comp_def, hsame, hplace, false_and, decide_false, Bool.or_false]

theorem exists_set (h : n / 8 < bytes.length) : ∃ bytes', set bytes n = some bytes' := by
  apply ne_none_iff_exists'.mp
  rw [Ne, set_eq_none_iff]
  omega

/-- Zero bytes have no bits. -/
theorem get_of_zero (h : bytes[n / 8]? = some 0) : get bytes n = some false := by
  rw [get_eq_getLsbD, h, map_some]
  exact congrArg some BitVec.getLsbD_zero

/-! ## Several bits -/

def setAll (bytes : List (BitVec 8)) : List ℕ → Option (List (BitVec 8))
  | [] => some bytes
  | n :: ns => (set bytes n).bind (setAll · ns)

/-- Whether all the bits are set. The first that is not ends the search. -/
def allSet (bytes : List (BitVec 8)) : List ℕ → Option Bool
  | [] => some true
  | n :: ns => (get bytes n).bind fun bit => if bit then allSet bytes ns else some false

/-- `n` bytes from `a` on zeroed. -/
def zero (bytes : List (BitVec 8)) (a n : ℕ) : Option (List (BitVec 8)) :=
  if a + n ≤ bytes.length then some (bytes.take a ++ replicate n 0 ++ bytes.drop (a + n))
  else none

variable {ns : List ℕ} {a : ℕ}

theorem exists_setAll (h : ∀ n ∈ ns, n / 8 < bytes.length) :
    ∃ bytes', setAll bytes ns = some bytes' ∧ bytes'.length = bytes.length ∧
      ∀ k, get bytes' k = (get bytes k).map (· || decide (k ∈ ns)) := by
  induction ns generalizing bytes with
  | nil => exact ⟨bytes, rfl, rfl, fun k => by simp⟩
  | cons n ns ih =>
      obtain ⟨mid, hmid⟩ := exists_set (h n mem_cons_self)
      have hget := get_of_set hmid
      obtain ⟨bytes', hall, hlength, hbits⟩ := @ih mid fun m hm => by
        rw [(hget 0).1]
        exact h m (mem_cons_of_mem _ hm)
      refine ⟨bytes', ?_, hlength.trans (hget 0).1, ?_⟩
      · rw [setAll, hmid, bind_some, hall]
      · intro k
        rw [hbits, (hget k).2, Option.map_map]
        simp only [Function.comp_def, mem_cons, Bool.decide_or, Bool.or_assoc, eq_comm]

theorem lt_of_setAll (h : setAll bytes ns = some bytes') (hn : n ∈ ns) : n / 8 < bytes.length := by
  induction ns generalizing bytes with
  | nil => exact absurd hn not_mem_nil
  | cons m ns ih =>
      obtain ⟨mid, hmid, hrest⟩ := bind_eq_some_iff.mp h
      rcases mem_cons.mp hn with rfl | hmem
      · by_contra hge
        exact nomatch (set_eq_none_iff.mpr (Nat.not_lt.mp hge)).symm.trans hmid
      · exact (get_of_set hmid 0).1 ▸ ih hrest hmem

theorem allSet_eq_true_iff : allSet bytes ns = some true ↔ ∀ n ∈ ns, get bytes n = some true := by
  induction ns with
  | nil => simp [allSet]
  | cons n ns ih =>
      rw [allSet, forall_mem_cons, ← ih]
      cases get bytes n with
      | none => simp
      | some bit => cases bit <;> simp

theorem allSet_ne_none (h : ∀ n ∈ ns, n / 8 < bytes.length) : allSet bytes ns ≠ none := by
  induction ns with
  | nil => nofun
  | cons n ns ih =>
      have hin : get bytes n ≠ none := by
        rw [Ne, get_eq_none_iff]
        exact Nat.not_le.mpr (h n mem_cons_self)
      obtain ⟨bit, hbit⟩ := ne_none_iff_exists'.mp hin
      rw [allSet, hbit, bind_some]
      split
      · exact ih fun m hm => h m (mem_cons_of_mem _ hm)
      · nofun

/-- The search looks at no other bits. -/
theorem allSet_congr (h : ∀ n ∈ ns, get bytes' n = get bytes n) : allSet bytes' ns = allSet bytes ns := by
  induction ns with
  | nil => rfl
  | cons n ns ih =>
      rw [allSet, allSet, h n mem_cons_self, ih fun m hm => h m (mem_cons_of_mem _ hm)]

theorem exists_zero (h : a + n ≤ bytes.length) :
    ∃ bytes', zero bytes a n = some bytes' ∧ bytes'.length = bytes.length ∧
      ∀ k, ¬ (a ≤ k / 8 ∧ k / 8 < a + n) → get bytes' k = get bytes k := by
  refine ⟨_, if_pos h, ?_, ?_⟩
  · simp only [length_append, length_take, length_replicate, length_drop]
    omega
  · intro k hk
    rw [get, get]
    congr 1
    rcases Nat.lt_or_ge (k / 8) a with hlt | hge
    · rw [append_assoc, getElem?_append_left (by rw [length_take]; omega),
        getElem?_take_of_lt hlt]
    · have hlength : (bytes.take a ++ replicate n 0).length = a + n := by
        simp only [length_append, length_take, length_replicate]
        omega
      rw [getElem?_append_right (by omega), hlength, getElem?_drop]
      congr 1
      omega

end BitArray
