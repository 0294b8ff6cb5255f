/-
Decimal numerals over bytes: what the C++ library's `std::from_chars` accepts in
base ten and what `std::to_string` prints, for a signed type with range
`[lo, hi]`.

`fromChars` is the parser as the standard describes it: an optional minus sign
(no plus sign, no white space), then as many digits as there are. It stops at
the first byte that is not a digit and reports the rest; a caller that does not
look at the rest accepts every string that merely *starts* with a numeral.
-/
import Mathlib.Data.List.TakeWhile
import Mathlib.Data.Nat.Digits.Defs
import Mathlib.Tactic.IntervalCases

set_option autoImplicit false

namespace Decimal

open List

/-- The byte `'-'`. -/
def minus : UInt8 := 45

/-- `'0' ≤ b ≤ '9'`. -/
def isDigit (b : UInt8) : Bool := 48 ≤ b && b ≤ 57

/-- The number a string of digits denotes, most significant digit first. -/
def value (digits : List UInt8) : ℕ :=
  digits.foldl (fun n b => 10 * n + (b.toNat - 48)) 0

/-- The sign of a numeral as it is written. -/
def sign (neg : Bool) : List UInt8 := if neg then [minus] else []

/-- The integer with this sign and this magnitude. -/
def signed (neg : Bool) (n : ℕ) : ℤ := if neg then -(n : ℤ) else n

/-- The two ways `std::from_chars` fails. -/
inductive Errc where
  | invalid_argument
  | result_out_of_range
  deriving DecidableEq, Repr

/-- `std::from_chars` in base ten: the number read and the bytes left over. -/
def fromChars (lo hi : ℤ) (s : List UInt8) : Except Errc (ℤ × List UInt8) :=
  let neg := s.head? == some minus
  let body := if neg then s.tail else s
  let digits := body.takeWhile isDigit
  if digits = [] then .error .invalid_argument
  else
    let n := signed neg (value digits)
    if lo ≤ n ∧ n ≤ hi then .ok (n, body.dropWhile isDigit)
    else .error .result_out_of_range

/-- The digits of a natural number, `'0'` for zero. -/
def digitsOf (n : ℕ) : List UInt8 := (Nat.toDigits 10 n).map Char.toUInt8

/-- `std::to_string` of an integer. -/
def toDecimal (n : ℤ) : List UInt8 := sign (n < 0) ++ digitsOf n.natAbs

/-- The whole string `s` is a decimal numeral of `n`. -/
def IsNumeral (s : List UInt8) (n : ℤ) : Prop :=
  ∃ neg digits, s = sign neg ++ digits ∧ digits ≠ [] ∧ (∀ b ∈ digits, isDigit b = true) ∧
    n = signed neg (value digits)

/-- `s` starts with a numeral of `n`, all the digits of it, and goes on with
`rest`. -/
def LeadingNumeral (s : List UInt8) (n : ℤ) (rest : List UInt8) : Prop :=
  ∃ p, s = p ++ rest ∧ IsNumeral p n ∧ ∀ b ∈ rest.head?, isDigit b = false

/-! ## Reading -/

theorem isDigit_minus : isDigit minus = false := rfl

theorem head?_ne_minus {digits : List UInt8} (rest : List UInt8) (hne : digits ≠ [])
    (hdigits : ∀ b ∈ digits, isDigit b = true) : (digits ++ rest).head? ≠ some minus := by
  rcases digits with _ | ⟨b, bs⟩
  · exact absurd rfl hne
  · intro h
    have hb : b = minus := by simpa using h
    have := hdigits b mem_cons_self
    rw [hb, isDigit_minus] at this
    exact absurd this (by simp)

/-- What the parser does on a sign, digits, and something that does not go on
with a digit. -/
theorem fromChars_sign_append (lo hi : ℤ) (neg : Bool) {digits : List UInt8}
    (rest : List UInt8) (hne : digits ≠ [])
    (hdigits : ∀ b ∈ digits, isDigit b = true) (hrest : ∀ b ∈ rest.head?, isDigit b = false) :
    fromChars lo hi (sign neg ++ (digits ++ rest))
      = if lo ≤ signed neg (value digits) ∧ signed neg (value digits) ≤ hi
        then .ok (signed neg (value digits), rest) else .error .result_out_of_range := by
  -- The digits are taken up to `rest`, and no further.
  have htake : rest.takeWhile isDigit = [] := by
    rcases rest with _ | ⟨b, bs⟩
    · rfl
    · exact takeWhile_cons_of_neg (by simp [hrest b rfl])
  have hdrop : rest.dropWhile isDigit = rest := by
    rcases rest with _ | ⟨b, bs⟩
    · rfl
    · exact dropWhile_cons_of_neg (by simp [hrest b rfl])
  have hneg : ((sign neg ++ (digits ++ rest)).head? == some minus) = neg := by
    cases neg
    · have := head?_ne_minus rest hne hdigits
      simpa [sign] using this
    · rfl
  have hbody : (if neg = true then (sign neg ++ (digits ++ rest)).tail
      else sign neg ++ (digits ++ rest)) = digits ++ rest := by
    cases neg <;> rfl
  unfold fromChars
  simp only [hneg, hbody, takeWhile_append_of_pos hdigits,
    dropWhile_append_of_pos hdigits, htake, hdrop, append_nil, if_neg hne]

theorem isDigit_head?_dropWhile (s : List UInt8) :
    ∀ b ∈ (s.dropWhile isDigit).head?, isDigit b = false := by
  intro b hb
  have := head?_dropWhile_not isDigit s
  rw [hb] at this
  simpa using this

/-- The bytes the parser consumed are a numeral of the number it reports, and
they are all the digits there are. -/
theorem leadingNumeral_of_fromChars {lo hi : ℤ} {s rest : List UInt8} {n : ℤ}
    (h : fromChars lo hi s = .ok (n, rest)) :
    LeadingNumeral s n rest ∧ lo ≤ n ∧ n ≤ hi := by
  unfold fromChars at h
  simp only at h
  split_ifs at h with hneg hdigits hrange hdigits hrange
  · -- a minus sign was read
    injection h with h
    injection h with hn hr
    obtain ⟨t, rfl⟩ : ∃ t, s = minus :: t := by
      rcases s with _ | ⟨b, t⟩
      · simp at hneg
      · exact ⟨t, by simpa using hneg⟩
    refine ⟨⟨minus :: t.takeWhile isDigit, ?_, ⟨true, _, rfl, hdigits, ?_, ?_⟩, ?_⟩, hn ▸ hrange⟩
    · rw [← hr]
      simp [takeWhile_append_dropWhile]
    · exact fun b hb => mem_takeWhile_imp hb
    · rw [← hn]; simp
    · rw [← hr]
      exact isDigit_head?_dropWhile t
  · injection h with h
    injection h with hn hr
    refine ⟨⟨s.takeWhile isDigit, ?_, ⟨false, _, rfl, hdigits, ?_, ?_⟩, ?_⟩, hn ▸ hrange⟩
    · rw [← hr]
      exact (takeWhile_append_dropWhile).symm
    · exact fun b hb => mem_takeWhile_imp hb
    · rw [← hn]; simp [hneg]
    · rw [← hr]
      exact isDigit_head?_dropWhile s

/-- **What the parser accepts.** -/
theorem fromChars_eq_ok_iff {lo hi : ℤ} {s rest : List UInt8} {n : ℤ} :
    fromChars lo hi s = .ok (n, rest) ↔ LeadingNumeral s n rest ∧ lo ≤ n ∧ n ≤ hi := by
  refine ⟨leadingNumeral_of_fromChars, ?_⟩
  rintro ⟨⟨p, rfl, ⟨neg, digits, rfl, hne, hdigits, rfl⟩, hrest⟩, hrange⟩
  rw [append_assoc, fromChars_sign_append lo hi neg rest hne hdigits hrest, if_pos hrange]

theorem leadingNumeral_nil_iff {s : List UInt8} {n : ℤ} :
    LeadingNumeral s n [] ↔ IsNumeral s n := by
  constructor
  · rintro ⟨p, rfl, hp, -⟩
    rwa [append_nil]
  · intro h
    exact ⟨s, (append_nil s).symm, h, by simp⟩

/-- A string has at most one leading numeral. -/
theorem LeadingNumeral.unique {s rest rest' : List UInt8} {n n' : ℤ}
    (h : LeadingNumeral s n rest) (h' : LeadingNumeral s n' rest') : n = n' ∧ rest = rest' := by
  have hn := fromChars_eq_ok_iff.mpr
    ⟨h, (⟨min_le_left _ _, le_max_left _ _⟩ : min n n' ≤ n ∧ n ≤ max n n')⟩
  have hn' := fromChars_eq_ok_iff.mpr
    ⟨h', (⟨min_le_right _ _, le_max_right _ _⟩ : min n n' ≤ n' ∧ n' ≤ max n n')⟩
  rw [hn] at hn'
  injection hn' with heq
  injection heq with h₁ h₂
  exact ⟨h₁, h₂⟩

/-! ## Printing -/

theorem toUInt8_digitChar {d : ℕ} (hd : d < 10) :
    (Nat.digitChar d).toUInt8 = UInt8.ofNat (48 + d) := by
  interval_cases d <;> rfl

theorem isDigit_ofNat {d : ℕ} (hd : d < 10) : isDigit (UInt8.ofNat (48 + d)) = true := by
  interval_cases d <;> rfl

theorem toNat_ofNat_digit {d : ℕ} (hd : d < 10) : (UInt8.ofNat (48 + d)).toNat - 48 = d := by
  interval_cases d <;> rfl

theorem value_append_singleton (digits : List UInt8) (b : UInt8) :
    value (digits ++ [b]) = 10 * value digits + (b.toNat - 48) := by
  unfold value
  rw [foldl_append]
  rfl

/-- The digits are printed last one last. -/
theorem digitsOf_eq (n : ℕ) :
    digitsOf n = (if n < 10 then [] else digitsOf (n / 10)) ++ [UInt8.ofNat (48 + n % 10)] := by
  unfold digitsOf
  rw [Nat.toDigits_eq_if (by omega)]
  split_ifs with hn
  · rw [Nat.mod_eq_of_lt hn, map_singleton, toUInt8_digitChar hn, nil_append]
  · rw [map_append, map_singleton, toUInt8_digitChar (Nat.mod_lt _ (by omega))]

theorem digitsOf_ne_nil (n : ℕ) : digitsOf n ≠ [] := by
  rw [digitsOf_eq]
  simp

/-- Digits are printed and they denote the number printed. -/
theorem digitsOf_spec (n : ℕ) : (∀ b ∈ digitsOf n, isDigit b = true) ∧ value (digitsOf n) = n := by
  induction n using Nat.strong_induction_on with
  | _ n ih =>
      rw [digitsOf_eq, value_append_singleton, toNat_ofNat_digit (Nat.mod_lt _ (by omega))]
      have hlast := isDigit_ofNat (Nat.mod_lt n (show 10 > 0 by omega))
      split_ifs with hn
      · refine ⟨?_, ?_⟩
        · simpa using hlast
        · simp only [value, foldl_nil]
          omega
      · obtain ⟨hdigits, hvalue⟩ := ih (n / 10) (by omega)
        refine ⟨?_, ?_⟩
        · intro b hb
          rcases mem_append.mp hb with hb | hb
          · exact hdigits b hb
          · exact mem_singleton.mp hb ▸ hlast
        · rw [hvalue]
          omega

/-- **What is printed is a numeral of what was printed.** -/
theorem isNumeral_toDecimal (n : ℤ) : IsNumeral (toDecimal n) n := by
  refine ⟨decide (n < 0), digitsOf n.natAbs, rfl, digitsOf_ne_nil _, (digitsOf_spec _).1, ?_⟩
  rw [(digitsOf_spec _).2]
  unfold signed
  split_ifs with hn
  · have : n < 0 := of_decide_eq_true hn
    omega
  · have : ¬ n < 0 := fun h => hn (decide_eq_true h)
    omega

theorem length_toDecimal_le {n : ℤ} {k : ℕ} (hk : 0 < k) (hn : n.natAbs < 10 ^ k) :
    (toDecimal n).length ≤ k + 1 := by
  have hdigits : (digitsOf n.natAbs).length ≤ k := by
    unfold digitsOf
    rw [length_map]
    exact Nat.toDigits_length 10 _ k hk hn
  have hsign : (sign (n < 0)).length ≤ 1 := by
    unfold sign
    split_ifs <;> simp
  unfold toDecimal
  rw [length_append]
  omega

end Decimal
