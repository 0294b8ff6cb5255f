/-
`RefcountWithFlags` (`cachelib/allocator/Refcount.h`): one 32-bit word that is
three things at once.

The low 18 bits count the outstanding handles, the next three say who holds the
item (linked in the MM container, accessible through the hash table, exclusive),
and the rest are flags. Every operation on the word is one atomic
read-modify-write, either a single `__atomic_or_fetch` / `__atomic_and_fetch`
or the compare-exchange loop `atomicUpdateValue`; so one operation is one step
here, and an interleaving of threads is a list of operations.

What the word means is only visible with the owners beside it, which `State` has
as ghosts. Nothing in the model forces the lists of those who evict or move the
item to be short; that at most one thread is ever in them is what is proved.
-/
import CacheLib.Lib.Run
import Mathlib.Data.Nat.Bitwise
import Mathlib.Tactic.Ring

set_option autoImplicit false

namespace CacheLib.Refcount

open Transition List Option

/-! ## The layout of the word -/

/-- `RefcountWithFlags::Value`, a `uint32_t`. -/
abbrev Value := BitVec 32

def kNumAdminRefBits : ℕ := 3
def kNumAccessRefBits : ℕ := 18

def kAccessRefMask : Value := BitVec.allOnes 32 >>> (32 - kNumAccessRefBits)

def kRefMask : Value := BitVec.allOnes 32 >>> (32 - kNumAdminRefBits - kNumAccessRefBits)

inductive AdminRef where
  | kLinked
  | kAccessible
  | kExclusive
  deriving DecidableEq, Repr

/-- The enumerator's value, which is its bit position. -/
def AdminRef.bit : AdminRef → ℕ
  | .kLinked => kNumAccessRefBits
  | .kAccessible => kNumAccessRefBits + 1
  | .kExclusive => kNumAccessRefBits + 2

inductive Flags where
  | kMMFlag0
  | kMMFlag1
  | kMMFlag2
  | kIsChainedItem
  | kHasChainedItem
  | kNvmClean
  | kNvmEvicted
  | kUnevictable_NOOP
  deriving DecidableEq, Repr

def Flags.bit : Flags → ℕ
  | .kMMFlag0 => kNumAccessRefBits + kNumAdminRefBits
  | .kMMFlag1 => kNumAccessRefBits + kNumAdminRefBits + 1
  | .kMMFlag2 => kNumAccessRefBits + kNumAdminRefBits + 2
  | .kIsChainedItem => kNumAccessRefBits + kNumAdminRefBits + 3
  | .kHasChainedItem => kNumAccessRefBits + kNumAdminRefBits + 4
  | .kNvmClean => kNumAccessRefBits + kNumAdminRefBits + 5
  | .kNvmEvicted => kNumAccessRefBits + kNumAdminRefBits + 6
  | .kUnevictable_NOOP => kNumAccessRefBits + kNumAdminRefBits + 7

/-- A word with only bit `i` set. -/
def bitMask (i : ℕ) : Value := 1#32 <<< i

def getAdminRef (a : AdminRef) : Value := bitMask a.bit

/-! ## The operations -/

/-- The two exceptions of `Refcount.h`. -/
inductive RefcountError where
  | RefcountOverflow
  | RefcountUnderflow
  deriving DecidableEq, Repr

inductive IncResult where
  | kIncOk
  | kIncFailedMoving
  | kIncFailedEviction
  deriving DecidableEq, Repr

/-- `atomicUpdateValue` at the instant its loop leaves: either the predicate
refuses the value it loaded and nothing is written, or the compare-exchange
succeeds on exactly the value the predicate accepted. -/
def atomicUpdateValue (predicate : Value → Except RefcountError Bool)
    (newValueF : Value → Value) (curValue : Value) : Except RefcountError (Bool × Value) := do
  if ← predicate curValue then
    return (true, newValueF curValue)
  else
    return (false, curValue)

/-- `incRef`. The overflow check stands before the exclusive check. -/
def incRef (curValue : Value) : Except RefcountError (IncResult × Value) := do
  let predicate := fun v : Value =>
    if v &&& kAccessRefMask = kAccessRefMask then
      Except.error RefcountError.RefcountOverflow
    else
      Except.ok (decide (v &&& getAdminRef .kExclusive = 0))
  let (updated, newValue) ← atomicUpdateValue predicate (fun v => v + 1) curValue
  if updated then
    return (.kIncOk, newValue)
  else if curValue &&& kAccessRefMask = 0 then
    return (.kIncFailedEviction, newValue)
  else
    return (.kIncFailedMoving, newValue)

/-- `decRef`, with the value it returns (access and admin bits of the result). -/
def decRef (curValue : Value) : Except RefcountError (Value × Value) := do
  let predicate := fun v : Value =>
    if v &&& kAccessRefMask = 0 then
      Except.error RefcountError.RefcountUnderflow
    else
      Except.ok true
  let (_, newValue) ← atomicUpdateValue predicate (fun v => v - 1) curValue
  return (newValue &&& kRefMask, newValue)

/-- `__atomic_or_fetch` with one bit: `markInMMContainer`, `markAccessible` and
`setFlag` are this operation at their own bit. -/
def orFetch (i : ℕ) (curValue : Value) : Value := curValue ||| bitMask i

/-- `__atomic_and_fetch` with the complement of one bit: `unmarkInMMContainer`,
`unmarkAccessible`, `unSetFlag` and `unmarkForEviction`. -/
def andNotFetch (i : ℕ) (curValue : Value) : Value := curValue &&& ~~~ bitMask i

def markInMMContainer : Value → Value := orFetch AdminRef.kLinked.bit
def unmarkInMMContainer : Value → Value := andNotFetch AdminRef.kLinked.bit
def markAccessible : Value → Value := orFetch AdminRef.kAccessible.bit
def unmarkAccessible : Value → Value := andNotFetch AdminRef.kAccessible.bit
def setFlag (f : Flags) : Value → Value := orFetch f.bit
def unSetFlag (f : Flags) : Value → Value := andNotFetch f.bit

/-- `markForEviction`: linked, not exclusive, no references. -/
def markForEviction (curValue : Value) : Except RefcountError (Bool × Value) :=
  atomicUpdateValue
    (fun v =>
      if v &&& getAdminRef .kLinked = 0 ∨ v &&& getAdminRef .kExclusive ≠ 0 then Except.ok false
      else if v &&& kAccessRefMask ≠ 0 then Except.ok false
      else Except.ok true)
    (fun v => v ||| getAdminRef .kExclusive) curValue

def unmarkForEviction : Value → Value := andNotFetch AdminRef.kExclusive.bit

/-- `markMoving`: the same three conditions; the count goes from zero to one
together with the exclusive bit. -/
def markMoving (curValue : Value) : Except RefcountError (Bool × Value) :=
  atomicUpdateValue
    (fun v =>
      if 0 < (v &&& kAccessRefMask).toNat ∨ v &&& getAdminRef .kLinked = 0
          ∨ v &&& getAdminRef .kExclusive ≠ 0 then Except.ok false
      else Except.ok true)
    (fun v => (v + 1) ||| getAdminRef .kExclusive) curValue

def unmarkMoving (curValue : Value) : Except RefcountError (Bool × Value) :=
  atomicUpdateValue (fun _ => Except.ok true)
    (fun v => (v - 1) &&& ~~~ getAdminRef .kExclusive) curValue

/-- `markForEvictionWhenMoving`: drops the mover's reference and keeps the
exclusive bit, so the mover has become an evictor. -/
def markForEvictionWhenMoving (curValue : Value) : Except RefcountError (Bool × Value) :=
  atomicUpdateValue (fun _ => Except.ok true) (fun v => v - 1) curValue

/-! ## Reading the word

The two readers every statement below uses: the access bits as a number, and
one bit. -/

variable (v : Value)

/-- The access bits as a number. -/
def accessBits : ℕ := (v &&& kAccessRefMask).toNat

/-- The exclusive bit. -/
def isExclusive : Bool := v.getLsbD AdminRef.kExclusive.bit

theorem accessBits_eq : accessBits v = v.toNat % 2 ^ 18 := by
  have hmask : kAccessRefMask.toNat = 2 ^ 18 - 1 := by decide
  rw [accessBits, BitVec.toNat_and, hmask, Nat.and_two_pow_sub_one_eq_mod]

theorem and_kAccessRefMask_eq_zero :
    v &&& kAccessRefMask = 0 ↔ accessBits v = 0 := by
  rw [accessBits, ← BitVec.toNat_inj]
  rfl

theorem and_kAccessRefMask_eq_mask :
    v &&& kAccessRefMask = kAccessRefMask ↔ accessBits v = 2 ^ 18 - 1 := by
  rw [accessBits, ← BitVec.toNat_inj]
  rfl

theorem getLsbD_bitMask (i j : ℕ) (hi : i < 32) : (bitMask i).getLsbD j = decide (j = i) := by
  rw [bitMask, BitVec.getLsbD_shiftLeft]
  by_cases hji : j = i
  · subst hji
    simp [hi]
  · by_cases hlt : j < i
    · simp [hlt, hji]
    · have hne : j - i ≠ 0 := by omega
      simp [hji, BitVec.getLsbD_one, hne]

/-- Testing a word against a one-bit mask reads that bit. -/
theorem and_bitMask_eq_zero (i : ℕ) (hi : i < 32) :
    v &&& bitMask i = 0 ↔ v.getLsbD i = false := by
  constructor
  · intro h
    have hb : (v &&& bitMask i).getLsbD i = false := by rw [h]; simp
    rw [BitVec.getLsbD_and, getLsbD_bitMask i i hi] at hb
    simpa using hb
  · intro h
    refine BitVec.eq_of_getLsbD_eq fun j _ => ?_
    rw [BitVec.getLsbD_and, getLsbD_bitMask i j hi]
    by_cases hji : j = i
    · subst hji
      simp [h]
    · simp [hji]

theorem and_kExclusive_eq_zero :
    v &&& getAdminRef .kExclusive = 0 ↔ isExclusive v = false :=
  and_bitMask_eq_zero v _ (by decide)

/-! ## What each write does to the word

Two kinds of write: adding or subtracting one, which stays inside the access
bits as long as they are not at their bound, and setting or clearing one bit
above them. -/

/-- Adding one to a count that is not at its maximum carries into no other bit. -/
theorem add_one_toNat (h : accessBits v ≠ 2 ^ 18 - 1) :
    (v + 1).toNat = v.toNat + 1 := by
  rw [accessBits_eq] at h
  have hv : v.toNat < 2 ^ 32 := v.isLt
  rw [BitVec.toNat_add]
  change (v.toNat + 1) % 2 ^ 32 = v.toNat + 1
  exact Nat.mod_eq_of_lt (by omega)

/-- Subtracting one from a count that is not zero borrows from no other bit. -/
theorem sub_one_toNat (h : accessBits v ≠ 0) : (v - 1).toNat = v.toNat - 1 := by
  rw [accessBits_eq] at h
  have hv : v.toNat < 2 ^ 32 := v.isLt
  rw [BitVec.toNat_sub]
  change (2 ^ 32 - 1 + v.toNat) % 2 ^ 32 = v.toNat - 1
  omega

theorem accessBits_add_one (h : accessBits v ≠ 2 ^ 18 - 1) :
    accessBits (v + 1) = accessBits v + 1 := by
  have hadd := add_one_toNat v h
  rw [accessBits_eq] at h ⊢
  rw [accessBits_eq, hadd]
  omega

theorem accessBits_sub_one (h : accessBits v ≠ 0) :
    accessBits (v - 1) = accessBits v - 1 := by
  have hsub := sub_one_toNat v h
  rw [accessBits_eq] at h ⊢
  rw [accessBits_eq, hsub]
  omega

variable {i : ℕ}

/-- Bits from 18 on only depend on the quotient by `2 ^ 18`. -/
theorem getLsbD_of_div_eq {v w : Value} (h : w.toNat / 2 ^ 18 = v.toNat / 2 ^ 18)
    (hi : 18 ≤ i) : w.getLsbD i = v.getLsbD i := by
  have hbit : ∀ u : Value, u.getLsbD i = (u.toNat / 2 ^ 18).testBit (i - 18) := by
    intro u
    rw [Nat.testBit_div_two_pow, Nat.sub_add_cancel hi]
    rfl
  rw [hbit, hbit, h]

theorem getLsbD_add_one (h : accessBits v ≠ 2 ^ 18 - 1) (hi : 18 ≤ i) :
    (v + 1).getLsbD i = v.getLsbD i := by
  refine getLsbD_of_div_eq ?_ hi
  have hadd := add_one_toNat v h
  rw [accessBits_eq] at h
  rw [hadd]
  omega

theorem getLsbD_sub_one (h : accessBits v ≠ 0) (hi : 18 ≤ i) :
    (v - 1).getLsbD i = v.getLsbD i := by
  refine getLsbD_of_div_eq ?_ hi
  have hsub := sub_one_toNat v h
  rw [accessBits_eq] at h
  rw [hsub]
  omega

theorem getLsbD_kAccessRefMask {j : ℕ} (hj : 18 ≤ j) : kAccessRefMask.getLsbD j = false := by
  simp only [kAccessRefMask, kNumAccessRefBits, BitVec.getLsbD_ushiftRight,
    BitVec.getLsbD_allOnes, decide_eq_false_iff_not]
  omega

/-- The count is in the bits below. -/
theorem accessBits_congr {v w : Value} (h : ∀ j < 18, w.getLsbD j = v.getLsbD j) :
    accessBits w = accessBits v := by
  rw [accessBits, accessBits]
  congr 1
  refine BitVec.eq_of_getLsbD_eq fun j _ => ?_
  rw [BitVec.getLsbD_and, BitVec.getLsbD_and]
  by_cases hj : j < 18
  · rw [h j hj]
  · rw [getLsbD_kAccessRefMask (not_lt.mp hj), Bool.and_false, Bool.and_false]

theorem getLsbD_orFetch (hi : i < 32) (j : ℕ) :
    (orFetch i v).getLsbD j = (v.getLsbD j || decide (j = i)) := by
  rw [orFetch, BitVec.getLsbD_or, getLsbD_bitMask i j hi]

theorem getLsbD_andNotFetch (hi : i < 32) (j : ℕ) :
    (andNotFetch i v).getLsbD j = (v.getLsbD j && !decide (j = i)) := by
  rw [andNotFetch, BitVec.getLsbD_and, BitVec.getLsbD_not, getLsbD_bitMask i j hi]
  by_cases hj : j < 32
  · simp [hj]
  · simp [BitVec.getLsbD_of_ge v j (by omega)]

theorem getLsbD_orFetch_of_ne {i j : ℕ} (hi : i < 32) (hne : j ≠ i) :
    (orFetch i v).getLsbD j = v.getLsbD j := by
  rw [getLsbD_orFetch v hi, decide_eq_false hne, Bool.or_false]

theorem getLsbD_andNotFetch_of_ne {i j : ℕ} (hi : i < 32) (hne : j ≠ i) :
    (andNotFetch i v).getLsbD j = v.getLsbD j := by
  rw [getLsbD_andNotFetch v hi, decide_eq_false hne, Bool.not_false, Bool.and_true]

/-- Setting a bit above the count leaves the count alone. -/
theorem accessBits_orFetch (hi : 18 ≤ i) (hi' : i < 32) :
    accessBits (orFetch i v) = accessBits v :=
  accessBits_congr fun _ hj => getLsbD_orFetch_of_ne v hi' (by omega)

theorem accessBits_andNotFetch (hi : 18 ≤ i) (hi' : i < 32) :
    accessBits (andNotFetch i v) = accessBits v :=
  accessBits_congr fun _ hj => getLsbD_andNotFetch_of_ne v hi' (by omega)

/-! ## The guarded operations, case by case

One equation per compare-exchange operation, with the masks read as numbers and
bits. Nothing below looks inside the operations again. -/

variable {v} in
theorem atomicUpdateValue_ok {predicate : Value → Except RefcountError Bool}
    {newValueF : Value → Value} {b : Bool} (h : predicate v = .ok b) :
    atomicUpdateValue predicate newValueF v = .ok (b, if b then newValueF v else v) := by
  simp only [atomicUpdateValue, h]
  cases b <;> rfl

variable {v} in
theorem atomicUpdateValue_error {predicate : Value → Except RefcountError Bool}
    {newValueF : Value → Value} {e : RefcountError} (h : predicate v = .error e) :
    atomicUpdateValue predicate newValueF v = .error e := by
  simp only [atomicUpdateValue, h]
  rfl

theorem incRef_eq :
    incRef v
      = if accessBits v = 2 ^ 18 - 1 then .error .RefcountOverflow
        else if isExclusive v then
          .ok (if accessBits v = 0 then .kIncFailedEviction else .kIncFailedMoving, v)
        else .ok (.kIncOk, v + 1) := by
  by_cases hmax : accessBits v = 2 ^ 18 - 1
  · rw [if_pos hmax, incRef, atomicUpdateValue_error
      (by rw [if_pos ((and_kAccessRefMask_eq_mask v).mpr hmax)])]
    rfl
  · rw [if_neg hmax, incRef, atomicUpdateValue_ok
      (by rw [if_neg (mt (and_kAccessRefMask_eq_mask v).mp hmax)])]
    cases hex : isExclusive v with
    | false =>
        rw [decide_eq_true ((and_kExclusive_eq_zero v).mpr hex)]
        rfl
    | true =>
        have hset : v &&& getAdminRef .kExclusive ≠ 0 := by
          intro h
          rw [(and_kExclusive_eq_zero v).mp h] at hex
          exact Bool.noConfusion hex
        rw [decide_eq_false hset]
        by_cases hzero : accessBits v = 0
        · have hzero' := (and_kAccessRefMask_eq_zero v).mpr hzero
          simp only [hzero, hzero', if_true]
          rfl
        · have hzero' := mt (and_kAccessRefMask_eq_zero v).mp hzero
          simp only [hzero, hzero', if_true, if_false]
          rfl

theorem decRef_eq :
    decRef v
      = if accessBits v = 0 then .error .RefcountUnderflow
        else .ok ((v - 1) &&& kRefMask, v - 1) := by
  by_cases hzero : accessBits v = 0
  · rw [if_pos hzero, decRef, atomicUpdateValue_error
      (by rw [if_pos ((and_kAccessRefMask_eq_zero v).mpr hzero)])]
    rfl
  · rw [if_neg hzero, decRef, atomicUpdateValue_ok
      (by rw [if_neg (mt (and_kAccessRefMask_eq_zero v).mp hzero)])]
    rfl

/-- The condition `markForEviction` and `markMoving` share: linked, nobody
exclusive, no reference. -/
def markable : Bool :=
  v.getLsbD AdminRef.kLinked.bit && !isExclusive v && decide (accessBits v = 0)

theorem markable_iff :
    markable v = true ↔ v &&& getAdminRef .kLinked ≠ 0 ∧ v &&& getAdminRef .kExclusive = 0
      ∧ v &&& kAccessRefMask = 0 := by
  have hlinked : v &&& getAdminRef .kLinked = 0 ↔ v.getLsbD AdminRef.kLinked.bit = false :=
    and_bitMask_eq_zero v _ (by decide)
  rw [ne_eq, hlinked, and_kExclusive_eq_zero, and_kAccessRefMask_eq_zero, markable]
  simp only [Bool.and_eq_true, Bool.not_eq_true', decide_eq_true_eq, Bool.not_eq_false, and_assoc]

theorem markForEviction_eq :
    markForEviction v
      = .ok (markable v, if markable v then orFetch AdminRef.kExclusive.bit v else v) := by
  refine atomicUpdateValue_ok ?_
  have hm := markable_iff v
  cases hb : markable v with
  | true =>
      obtain ⟨hl, he, ha⟩ := hm.mp hb
      rw [if_neg (not_or.mpr ⟨hl, not_not.mpr he⟩), if_neg (not_not.mpr ha)]
  | false =>
      rw [hb] at hm
      by_cases hle : v &&& getAdminRef .kLinked = 0 ∨ v &&& getAdminRef .kExclusive ≠ 0
      · rw [if_pos hle]
      · rw [not_or, not_not] at hle
        rw [if_neg (not_or.mpr ⟨hle.1, not_not.mpr hle.2⟩), if_pos]
        exact fun ha => Bool.noConfusion (hm.mpr ⟨hle.1, hle.2, ha⟩)

theorem markMoving_eq :
    markMoving v
      = .ok (markable v, if markable v then orFetch AdminRef.kExclusive.bit (v + 1) else v) := by
  refine atomicUpdateValue_ok ?_
  have hm := markable_iff v
  cases hb : markable v with
  | true =>
      obtain ⟨hl, he, ha⟩ := hm.mp hb
      rw [if_neg]
      rw [not_or, not_or]
      exact ⟨by rw [ha]; decide, hl, not_not.mpr he⟩
  | false =>
      rw [hb] at hm
      rw [if_pos]
      by_contra hnot
      rw [not_or, not_or, not_not, not_lt, Nat.le_zero] at hnot
      exact Bool.noConfusion
        (hm.mpr ⟨hnot.2.1, hnot.2.2, (and_kAccessRefMask_eq_zero v).mpr hnot.1⟩)

theorem unmarkMoving_eq :
    unmarkMoving v = .ok (true, andNotFetch AdminRef.kExclusive.bit (v - 1)) := rfl

theorem markForEvictionWhenMoving_eq :
    markForEvictionWhenMoving v = .ok (true, v - 1) := rfl

/-! ## Threads on one item

A thread may try any operation at any time, except that it gives back only what
it has: `decRef` needs a reference of that thread, and the three operations that
end or change an exclusivity need that exclusivity. An exception leaves the word
as it was. -/

abbrev Tid := ℕ

/-- The word, and who holds what. -/
structure State where
  refCount : Value
  refs : List Tid
  evictors : List Tid
  movers : List Tid
  deriving DecidableEq, Repr

def init : State := { refCount := 0, refs := [], evictors := [], movers := [] }

inductive Op where
  | incRef (t : Tid)
  | decRef (t : Tid)
  | markForEviction (t : Tid)
  | unmarkForEviction (t : Tid)
  | markMoving (t : Tid)
  | unmarkMoving (t : Tid)
  | markForEvictionWhenMoving (t : Tid)
  | markInMMContainer
  | unmarkInMMContainer
  | markAccessible
  | unmarkAccessible
  | setFlag (f : Flags)
  | unSetFlag (f : Flags)
  deriving DecidableEq, Repr

def step (s : State) : Op → Option State
  | .incRef t =>
      match incRef s.refCount with
      | .ok (.kIncOk, v) => some { s with refCount := v, refs := t :: s.refs }
      | .ok (_, v) => some { s with refCount := v }
      | .error _ => some s
  | .decRef t =>
      if t ∈ s.refs then
        match decRef s.refCount with
        | .ok (_, v) => some { s with refCount := v, refs := s.refs.erase t }
        | .error _ => some s
      else none
  | .markForEviction t =>
      match markForEviction s.refCount with
      | .ok (true, v) => some { s with refCount := v, evictors := t :: s.evictors }
      | .ok (false, v) => some { s with refCount := v }
      | .error _ => some s
  | .unmarkForEviction t =>
      if t ∈ s.evictors then
        some { s with refCount := unmarkForEviction s.refCount, evictors := s.evictors.erase t }
      else none
  | .markMoving t =>
      match markMoving s.refCount with
      | .ok (true, v) => some { s with refCount := v, movers := t :: s.movers }
      | .ok (false, v) => some { s with refCount := v }
      | .error _ => some s
  | .unmarkMoving t =>
      if t ∈ s.movers then
        match unmarkMoving s.refCount with
        | .ok (_, v) => some { s with refCount := v, movers := s.movers.erase t }
        | .error _ => some s
      else none
  | .markForEvictionWhenMoving t =>
      if t ∈ s.movers then
        match markForEvictionWhenMoving s.refCount with
        | .ok (_, v) =>
            some { s with refCount := v, movers := s.movers.erase t, evictors := t :: s.evictors }
        | .error _ => some s
      else none
  | .markInMMContainer => some { s with refCount := markInMMContainer s.refCount }
  | .unmarkInMMContainer => some { s with refCount := unmarkInMMContainer s.refCount }
  | .markAccessible => some { s with refCount := markAccessible s.refCount }
  | .unmarkAccessible => some { s with refCount := unmarkAccessible s.refCount }
  | .setFlag f => some { s with refCount := setFlag f s.refCount }
  | .unSetFlag f => some { s with refCount := unSetFlag f s.refCount }

/-- The one bit above the count that an operation may write. -/
def Op.writes : Op → Option ℕ
  | .incRef _ | .decRef _ | .markForEvictionWhenMoving _ => none
  | .markForEviction _ | .unmarkForEviction _ | .markMoving _ | .unmarkMoving _ =>
      some AdminRef.kExclusive.bit
  | .markInMMContainer | .unmarkInMMContainer => some AdminRef.kLinked.bit
  | .markAccessible | .unmarkAccessible => some AdminRef.kAccessible.bit
  | .setFlag f | .unSetFlag f => some f.bit

/-- The operations that move the count. -/
def Op.counts : Op → Bool
  | .incRef _ | .decRef _ | .markMoving _ | .unmarkMoving _ | .markForEvictionWhenMoving _ => true
  | _ => false

/-! ## The invariant -/

/-- The word against the owners. `owners` is mutual exclusion; `alone` is why a
mover can use the count itself to say that it is a mover. -/
structure Inv (s : State) : Prop where
  count : accessBits s.refCount = s.refs.length + s.movers.length
  owners : s.evictors.length + s.movers.length ≤ 1
  exclusive : isExclusive s.refCount = true ↔ s.evictors.length + s.movers.length = 1
  alone : s.evictors.length + s.movers.length = 1 → s.refs = []

theorem inv_init : Inv init where
  count := by decide
  owners := by decide
  exclusive := by decide
  alone := by decide

variable {v} {s : State} {t : Tid}

/-- A write that keeps the count and the exclusive bit keeps the invariant. -/
theorem Inv.word (h : Inv s)
    (hcount : accessBits v = accessBits s.refCount)
    (hexcl : isExclusive v = isExclusive s.refCount) : Inv { s with refCount := v } where
  count := hcount.trans h.count
  owners := h.owners
  exclusive := by rw [hexcl]; exact h.exclusive
  alone := h.alone

theorem isExclusive_orFetch_self :
    isExclusive (orFetch AdminRef.kExclusive.bit v) = true := by
  rw [isExclusive, getLsbD_orFetch v (by decide), decide_eq_true rfl, Bool.or_true]

theorem isExclusive_andNotFetch_self :
    isExclusive (andNotFetch AdminRef.kExclusive.bit v) = false := by
  rw [isExclusive, getLsbD_andNotFetch v (by decide), decide_eq_true rfl, Bool.not_true,
    Bool.and_false]

/-- Setting a bit that is neither in the count nor the exclusive one. -/
theorem Inv.orFetch (h : Inv s) (hi : 18 ≤ i) (hi' : i < 32)
    (hne : i ≠ AdminRef.kExclusive.bit) : Inv { s with refCount := orFetch i s.refCount } :=
  h.word (accessBits_orFetch _ hi hi') (getLsbD_orFetch_of_ne _ hi' hne.symm)

theorem Inv.andNotFetch (h : Inv s) (hi : 18 ≤ i) (hi' : i < 32)
    (hne : i ≠ AdminRef.kExclusive.bit) : Inv { s with refCount := andNotFetch i s.refCount } :=
  h.word (accessBits_andNotFetch _ hi hi') (getLsbD_andNotFetch_of_ne _ hi' hne.symm)

/-- Who is one of `owners` is the only one, and nobody is one of the others. -/
theorem owners_of_mem {owners others : List Tid} (hle : owners.length + others.length ≤ 1)
    (ht : t ∈ owners) : owners = [t] ∧ others = [] := by
  have hpos : 0 < owners.length := length_pos_of_mem ht
  obtain ⟨x, rfl⟩ := length_eq_one_iff.mp (by omega : owners.length = 1)
  rw [mem_singleton.mp ht]
  exact ⟨rfl, length_eq_zero_iff.mp (by omega)⟩

/-- Somebody exclusive who is in `movers`: the count is the mover's own. -/
theorem Inv.of_mover (h : Inv s) (ht : t ∈ s.movers) :
    s.evictors = [] ∧ s.movers = [t] ∧ s.refs = [] ∧ accessBits s.refCount = 1 := by
  obtain ⟨hmv, hev⟩ := owners_of_mem (Nat.add_comm _ _ ▸ h.owners) ht
  have hrefs : s.refs = [] := h.alone (by rw [hev, hmv]; rfl)
  refine ⟨hev, hmv, hrefs, ?_⟩
  rw [h.count, hrefs, hmv]
  rfl

theorem Inv.of_evictor (h : Inv s) (ht : t ∈ s.evictors) :
    s.evictors = [t] ∧ s.movers = [] ∧ s.refs = [] ∧ accessBits s.refCount = 0 := by
  obtain ⟨hev, hmv⟩ := owners_of_mem h.owners ht
  have hrefs : s.refs = [] := h.alone (by rw [hev, hmv]; rfl)
  refine ⟨hev, hmv, hrefs, ?_⟩
  rw [h.count, hrefs, hmv]
  rfl

/-- Nobody exclusive: both owner lists are empty. -/
theorem Inv.of_not_exclusive (h : Inv s) (he : isExclusive s.refCount = false) :
    s.evictors = [] ∧ s.movers = [] := by
  have hne : s.evictors.length + s.movers.length ≠ 1 := by
    intro h1
    rw [h.exclusive.mpr h1] at he
    exact Bool.noConfusion he
  have howners := h.owners
  exact ⟨length_eq_zero_iff.mp (by omega), length_eq_zero_iff.mp (by omega)⟩

/-- A word that can be marked: nobody holds anything. -/
theorem Inv.of_markable (h : Inv s) (hm : markable s.refCount = true) :
    s.evictors = [] ∧ s.movers = [] ∧ s.refs = [] ∧ accessBits s.refCount = 0 := by
  rw [markable] at hm
  simp only [Bool.and_eq_true, Bool.not_eq_true', decide_eq_true_eq] at hm
  obtain ⟨hev, hmv⟩ := h.of_not_exclusive hm.1.2
  refine ⟨hev, hmv, ?_, hm.2⟩
  have hcount := h.count
  rw [hm.2, hmv] at hcount
  exact length_eq_zero_iff.mp hcount.symm

theorem Flags.bit_bounds (f : Flags) : 18 ≤ f.bit ∧ f.bit < 32 ∧ f.bit ≠ AdminRef.kExclusive.bit := by
  cases f <;> decide

/-- **What an operation does to the state**: one constructor for each way the word and
the owners change together. -/
inductive Effect (s : State) : Op → State → Prop where
  | refused (o : Op) : Effect s o s
  | acquired (t : Tid) (hmax : accessBits s.refCount ≠ 2 ^ 18 - 1)
      (hfree : isExclusive s.refCount = false) :
      Effect s (.incRef t) { s with refCount := s.refCount + 1, refs := t :: s.refs }
  | released (t : Tid) (ht : t ∈ s.refs) :
      Effect s (.decRef t) { s with refCount := s.refCount - 1, refs := s.refs.erase t }
  | evictionMarked (t : Tid) (hm : markable s.refCount = true) :
      Effect s (.markForEviction t)
        { s with
          refCount := orFetch AdminRef.kExclusive.bit s.refCount
          evictors := t :: s.evictors }
  | evictionUnmarked (t : Tid) (ht : t ∈ s.evictors) :
      Effect s (.unmarkForEviction t)
        { s with
          refCount := andNotFetch AdminRef.kExclusive.bit s.refCount
          evictors := s.evictors.erase t }
  | movingMarked (t : Tid) (hm : markable s.refCount = true) :
      Effect s (.markMoving t)
        { s with
          refCount := orFetch AdminRef.kExclusive.bit (s.refCount + 1)
          movers := t :: s.movers }
  | movingUnmarked (t : Tid) (ht : t ∈ s.movers) :
      Effect s (.unmarkMoving t)
        { s with
          refCount := andNotFetch AdminRef.kExclusive.bit (s.refCount - 1)
          movers := s.movers.erase t }
  | movingEvicted (t : Tid) (ht : t ∈ s.movers) :
      Effect s (.markForEvictionWhenMoving t)
        { s with
          refCount := s.refCount - 1
          movers := s.movers.erase t
          evictors := t :: s.evictors }
  | bitSet (o : Op) (i : ℕ) (hw : o.writes = some i) (hi : 18 ≤ i) (hi' : i < 32)
      (hne : i ≠ AdminRef.kExclusive.bit) :
      Effect s o { s with refCount := orFetch i s.refCount }
  | bitCleared (o : Op) (i : ℕ) (hw : o.writes = some i) (hi : 18 ≤ i) (hi' : i < 32)
      (hne : i ≠ AdminRef.kExclusive.bit) :
      Effect s o { s with refCount := andNotFetch i s.refCount }

theorem Inv.count_ne_zero (h : Inv s) (ht : t ∈ s.refs) :
    accessBits s.refCount ≠ 0 := by
  have hpos : 0 < s.refs.length := length_pos_of_mem ht
  rw [h.count]
  omega

/-- **A step has an effect of the list.** Nothing below looks inside `step` again. -/
theorem step_effect (h : Inv s) {o : Op} {s' : State} (hstep : step s o = some s') :
    Effect s o s' := by
  cases o with
  | incRef t =>
      rw [step, incRef_eq] at hstep
      by_cases hmax : accessBits s.refCount = 2 ^ 18 - 1
      · rw [if_pos hmax] at hstep
        exact some.inj hstep ▸ .refused _
      rw [if_neg hmax] at hstep
      cases hex : isExclusive s.refCount with
      | true =>
          -- Turned away, with one of two results; the word is written back as it was.
          rw [hex, if_pos rfl] at hstep
          split_ifs at hstep
          · exact some.inj hstep ▸ .refused _
          · exact some.inj hstep ▸ .refused _
      | false =>
          rw [hex, if_neg Bool.false_ne_true] at hstep
          exact some.inj hstep ▸ .acquired t hmax hex
  | decRef t =>
      rw [step] at hstep
      split_ifs at hstep with ht
      -- Who has a reference to give back is counted, so this does not throw.
      rw [decRef_eq, if_neg (h.count_ne_zero ht)] at hstep
      exact some.inj hstep ▸ .released t ht
  | markForEviction t =>
      rw [step, markForEviction_eq] at hstep
      cases hm : markable s.refCount with
      | false =>
          rw [hm] at hstep
          exact some.inj hstep ▸ .refused _
      | true =>
          rw [hm, if_pos rfl] at hstep
          exact some.inj hstep ▸ .evictionMarked t hm
  | unmarkForEviction t =>
      rw [step] at hstep
      split_ifs at hstep with ht
      exact some.inj hstep ▸ .evictionUnmarked t ht
  | markMoving t =>
      rw [step, markMoving_eq] at hstep
      cases hm : markable s.refCount with
      | false =>
          rw [hm] at hstep
          exact some.inj hstep ▸ .refused _
      | true =>
          rw [hm, if_pos rfl] at hstep
          exact some.inj hstep ▸ .movingMarked t hm
  | unmarkMoving t =>
      rw [step] at hstep
      split_ifs at hstep with ht
      rw [unmarkMoving_eq] at hstep
      exact some.inj hstep ▸ .movingUnmarked t ht
  | markForEvictionWhenMoving t =>
      rw [step] at hstep
      split_ifs at hstep with ht
      rw [markForEvictionWhenMoving_eq] at hstep
      exact some.inj hstep ▸ .movingEvicted t ht
  | markInMMContainer | markAccessible =>
      exact some.inj hstep ▸ .bitSet _ _ rfl (by decide) (by decide) (by decide)
  | unmarkInMMContainer | unmarkAccessible =>
      exact some.inj hstep ▸ .bitCleared _ _ rfl (by decide) (by decide) (by decide)
  | setFlag f =>
      obtain ⟨hlow, hhigh, hne⟩ := f.bit_bounds
      exact some.inj hstep ▸ .bitSet _ _ rfl hlow hhigh hne
  | unSetFlag f =>
      obtain ⟨hlow, hhigh, hne⟩ := f.bit_bounds
      exact some.inj hstep ▸ .bitCleared _ _ rfl hlow hhigh hne

/-- **One step.** Every operation keeps the invariant. -/
theorem step_inv (s : State) (o : Op) (s' : State) (h : Inv s) (hstep : step s o = some s') :
    Inv s' := by
  cases step_effect h hstep with
  | refused o => exact h
  | acquired t hmax hfree =>
      obtain ⟨hev, hmv⟩ := h.of_not_exclusive hfree
      refine ⟨?_, h.owners, ?_, fun h1 => ?_⟩
      · rw [accessBits_add_one _ hmax, h.count, length_cons]
        exact Nat.add_right_comm _ _ _
      · rw [isExclusive, getLsbD_add_one _ hmax (by decide), ← isExclusive]
        exact h.exclusive
      · simp [hev, hmv] at h1
  | released t ht =>
      have hne := h.count_ne_zero ht
      refine ⟨?_, h.owners, ?_, fun h1 => ?_⟩
      · rw [accessBits_sub_one _ hne, h.count, length_erase_of_mem ht]
        exact Nat.sub_add_comm (length_pos_of_mem ht)
      · rw [isExclusive, getLsbD_sub_one _ hne (by decide), ← isExclusive]
        exact h.exclusive
      · -- Nobody is exclusive while a reference is out.
        rw [h.alone h1] at ht
        exact absurd ht not_mem_nil
  | evictionMarked t hm =>
      obtain ⟨hev, hmv, hrefs, hzero⟩ := h.of_markable hm
      refine ⟨?_, ?_, ?_, fun _ => hrefs⟩
      · rw [accessBits_orFetch _ (by decide) (by decide), hzero, hrefs, hmv]
        rfl
      · simp [hev, hmv]
      · simp [hev, hmv, isExclusive_orFetch_self]
  | evictionUnmarked t ht =>
      obtain ⟨hev, hmv, hrefs, hzero⟩ := h.of_evictor ht
      refine ⟨?_, ?_, ?_, fun _ => hrefs⟩
      · rw [accessBits_andNotFetch _ (by decide) (by decide), hzero, hrefs, hmv]
        rfl
      · simp [hev, hmv]
      · simp [hev, hmv, isExclusive_andNotFetch_self]
  | movingMarked t hm =>
      obtain ⟨hev, hmv, hrefs, hzero⟩ := h.of_markable hm
      refine ⟨?_, ?_, ?_, fun _ => hrefs⟩
      · -- The mover's own count is the one the word has now.
        rw [accessBits_orFetch _ (by decide) (by decide),
          accessBits_add_one _ (by rw [hzero]; decide), hzero, hrefs, hmv]
        rfl
      · simp [hev, hmv]
      · simp [hev, hmv, isExclusive_orFetch_self]
  | movingUnmarked t ht =>
      obtain ⟨hev, hmv, hrefs, hone⟩ := h.of_mover ht
      refine ⟨?_, ?_, ?_, fun _ => hrefs⟩
      · rw [accessBits_andNotFetch _ (by decide) (by decide),
          accessBits_sub_one _ (by rw [hone]; decide), hone, hrefs, hmv]
        simp
      · simp [hev, hmv]
      · simp [hev, hmv, isExclusive_andNotFetch_self]
  | movingEvicted t ht =>
      obtain ⟨hev, hmv, hrefs, hone⟩ := h.of_mover ht
      have hne : accessBits s.refCount ≠ 0 := by rw [hone]; decide
      have hexcl : isExclusive s.refCount = true := h.exclusive.mpr (by rw [hev, hmv]; rfl)
      refine ⟨?_, ?_, ?_, fun _ => hrefs⟩
      · rw [accessBits_sub_one _ hne, hone, hrefs, hmv]
        simp
      · simp [hev, hmv]
      · -- The exclusive bit changes hands without being written.
        rw [isExclusive, getLsbD_sub_one _ hne (by decide), ← isExclusive, hexcl]
        simp [hev, hmv]
  | bitSet o i hw hi hi' hne => exact h.orFetch hi hi' hne
  | bitCleared o i hw hi hi' hne => exact h.andNotFetch hi hi' hne

theorem ne_of_some_ne {b i : ℕ} (h : some b ≠ some i) : i ≠ b := fun e => h (congrArg some e.symm)

/-- **The frame.** At the maximum count `incRef` throws and changes nothing, so this
covers the carry out of the count too. -/
theorem step_frame (h : Inv s) {o : Op} {s' : State} (hstep : step s o = some s') :
    (∀ i, 18 ≤ i → o.writes ≠ some i → s'.refCount.getLsbD i = s.refCount.getLsbD i)
      ∧ (o.counts = false → accessBits s'.refCount = accessBits s.refCount) := by
  cases step_effect h hstep with
  | refused o => exact ⟨fun _ _ _ => rfl, fun _ => rfl⟩
  | acquired t hmax hfree =>
      exact ⟨fun i hi _ => getLsbD_add_one _ hmax hi, fun hc => Bool.noConfusion hc⟩
  | released t ht =>
      exact ⟨fun i hi _ => getLsbD_sub_one _ (h.count_ne_zero ht) hi,
        fun hc => Bool.noConfusion hc⟩
  | evictionMarked t hm =>
      exact ⟨fun i _ hw => getLsbD_orFetch_of_ne _ (by decide) (ne_of_some_ne hw),
        fun _ => accessBits_orFetch _ (by decide) (by decide)⟩
  | evictionUnmarked t ht =>
      exact ⟨fun i _ hw => getLsbD_andNotFetch_of_ne _ (by decide) (ne_of_some_ne hw),
        fun _ => accessBits_andNotFetch _ (by decide) (by decide)⟩
  | movingMarked t hm =>
      obtain ⟨-, -, -, hzero⟩ := h.of_markable hm
      refine ⟨fun i hi hw => ?_, fun hc => Bool.noConfusion hc⟩
      exact (getLsbD_orFetch_of_ne _ (by decide) (ne_of_some_ne hw)).trans
        (getLsbD_add_one _ (by rw [hzero]; decide) hi)
  | movingUnmarked t ht =>
      obtain ⟨-, -, -, hone⟩ := h.of_mover ht
      refine ⟨fun i hi hw => ?_, fun hc => Bool.noConfusion hc⟩
      exact (getLsbD_andNotFetch_of_ne _ (by decide) (ne_of_some_ne hw)).trans
        (getLsbD_sub_one _ (by rw [hone]; decide) hi)
  | movingEvicted t ht =>
      obtain ⟨-, -, -, hone⟩ := h.of_mover ht
      exact ⟨fun i hi _ => getLsbD_sub_one _ (by rw [hone]; decide) hi,
        fun hc => Bool.noConfusion hc⟩
  | bitSet o b hw hb hb' hne =>
      exact ⟨fun i _ hwi => getLsbD_orFetch_of_ne _ hb' (ne_of_some_ne (hw ▸ hwi)),
        fun _ => accessBits_orFetch _ hb hb'⟩
  | bitCleared o b hw hb hb' hne =>
      exact ⟨fun i _ hwi => getLsbD_andNotFetch_of_ne _ hb' (ne_of_some_ne (hw ▸ hwi)),
        fun _ => accessBits_andNotFetch _ hb hb'⟩

/-! ## Every interleaving -/

/-- The invariant holds in every state a run reaches. -/
theorem exec_inv {ops : List Op} (hrun : exec step init ops = some s) : Inv s :=
  exec_invariant step_inv hrun inv_init

/-- **The word tracks its owners.** After any interleaving of operations on one
item, the access bits are the outstanding references plus one for a mover; at
most one thread holds the exclusive bit; no `incRef` succeeds while it is set; and
the next operation changes no bit above the count but the one it names. -/
theorem refcount_tracks_owners (ops : List Op) (s : State)
    (hrun : exec step init ops = some s) :
    accessBits s.refCount = s.refs.length + s.movers.length
      ∧ (s.evictors ++ s.movers).length ≤ 1
      ∧ (isExclusive s.refCount = true ↔ (s.evictors ++ s.movers).length = 1)
      ∧ (isExclusive s.refCount = true →
          (s.evictors ≠ [] ↔ accessBits s.refCount = 0)
            ∧ (s.movers ≠ [] ↔ accessBits s.refCount = 1)
            ∧ ∀ v, incRef s.refCount ≠ .ok (.kIncOk, v))
      ∧ ∀ o s', step s o = some s' →
          (∀ i, 18 ≤ i → o.writes ≠ some i → s'.refCount.getLsbD i = s.refCount.getLsbD i)
            ∧ (o.counts = false → accessBits s'.refCount = accessBits s.refCount) := by
  have h := exec_inv hrun
  rw [length_append]
  refine ⟨h.count, h.owners, h.exclusive, fun he => ?_, fun o s' hstep => step_frame h hstep⟩
  have howner := h.exclusive.mp he
  have hcount := h.count
  rw [h.alone howner, length_nil, Nat.zero_add] at hcount
  refine ⟨?_, ?_, fun v hv => ?_⟩
  · rw [hcount, ne_eq, ← length_eq_zero_iff]
    omega
  · rw [hcount, ne_eq, ← length_eq_zero_iff]
    omega
  · simp only [incRef_eq, he, if_true] at hv
    split_ifs at hv <;> cases hv

/-- A run with a mover that turns evictor while another thread is refused. -/
theorem refcount_tracks_owners_mover :
    ∃ s, exec step init
        [.markInMMContainer, .incRef 1, .decRef 1, .markMoving 2, .incRef 1,
          .markForEvictionWhenMoving 2] = some s
      ∧ s.evictors = [2] ∧ accessBits s.refCount = s.refs.length + s.movers.length :=
  ⟨{ refCount := 0x140000#32, refs := [], evictors := [2], movers := [] }, by decide, rfl,
    (refcount_tracks_owners
      [.markInMMContainer, .incRef 1, .decRef 1, .markMoving 2, .incRef 1,
        .markForEvictionWhenMoving 2] _ (by decide)).1⟩

theorem and_kRefMask_eq_zero :
    v &&& kRefMask = 0 ↔ accessBits v = 0 ∧ ∀ a : AdminRef, v.getLsbD a.bit = false := by
  have hmask : kRefMask.toNat = 2 ^ 21 - 1 := by decide
  have hbit : ∀ i, v.getLsbD i = false ↔ v.toNat / 2 ^ i % 2 = 0 := fun i => by
    rw [BitVec.getLsbD, Nat.testBit_eq_decide_div_mod_eq]
    simp
  have hall : (∀ a : AdminRef, v.getLsbD a.bit = false) ↔ v.toNat / 2 ^ 18 % 2 = 0 ∧
      v.toNat / 2 ^ 19 % 2 = 0 ∧ v.toNat / 2 ^ 20 % 2 = 0 := by
    rw [← hbit, ← hbit, ← hbit]
    exact ⟨fun h => ⟨h .kLinked, h .kAccessible, h .kExclusive⟩,
      fun ⟨h, h', h''⟩ a => by cases a <;> assumption⟩
  rw [hall, accessBits_eq, ← BitVec.toNat_inj, BitVec.toNat_and, hmask,
    Nat.and_two_pow_sub_one_eq_mod]
  change _ = 0 ↔ _
  omega

/-- **An item is given back once nobody has it.** In every interleaving, a thread that drops one of its
references is told that none are left, so that it gives the item back, if and only if there was no
other one, no thread is evicting or moving the item, and it is neither linked nor accessible. -/
theorem decRef_zero_iff {ops : List Op} (hrun : exec step init ops = some s) (ht : t ∈ s.refs) :
    ∃ v, decRef s.refCount = .ok (v &&& kRefMask, v) ∧
      step s (.decRef t) = some { s with refCount := v, refs := s.refs.erase t } ∧
      (v &&& kRefMask = 0 ↔ s.refs = [t] ∧ s.evictors = [] ∧ s.movers = [] ∧
        s.refCount.getLsbD AdminRef.kLinked.bit = false ∧
        s.refCount.getLsbD AdminRef.kAccessible.bit = false) := by
  have h := exec_inv hrun
  have hne := h.count_ne_zero ht
  have hdec := (decRef_eq s.refCount).trans (if_neg hne)
  -- nobody is exclusive while somebody counts
  have hone : s.evictors.length + s.movers.length ≠ 1 := fun hone => by simp [h.alone hone] at ht
  have hnone : s.evictors.length + s.movers.length = 0 := by
    have howners := h.owners
    omega
  have hcount : accessBits s.refCount = s.refs.length := by
    have hcount := h.count
    omega
  have hexclusive : s.refCount.getLsbD AdminRef.kExclusive.bit = false :=
    Bool.eq_false_iff.mpr (mt h.exclusive.mp hone)
  have hbit : ∀ a : AdminRef, (s.refCount - 1).getLsbD a.bit = s.refCount.getLsbD a.bit := fun a =>
    getLsbD_sub_one _ hne (by cases a <;> decide)
  have hlast : s.refs.length - 1 = 0 ↔ s.refs = [t] := by
    refine ⟨fun hlength => ?_, fun hrefs => by rw [hrefs]; rfl⟩
    have hpos := length_pos_of_mem ht
    obtain ⟨a, hrefs⟩ := length_eq_one_iff.mp (by omega : s.refs.length = 1)
    rw [hrefs, mem_singleton] at ht
    rw [hrefs, ht]
  refine ⟨s.refCount - 1, hdec, ?_, ?_⟩
  · rw [step, if_pos ht, hdec]
  · rw [and_kRefMask_eq_zero, accessBits_sub_one _ hne, hcount, hlast]
    constructor
    · rintro ⟨hrefs, hbits⟩
      exact ⟨hrefs, length_eq_zero_iff.mp (by omega), length_eq_zero_iff.mp (by omega),
        hbit .kLinked ▸ hbits .kLinked, hbit .kAccessible ▸ hbits .kAccessible⟩
    · rintro ⟨hrefs, -, -, hlinked, haccessible⟩
      refine ⟨hrefs, fun a => ?_⟩
      rw [hbit]
      cases a <;> assumption

theorem decRef_zero_iff_two :
    ∃ s, exec step init [.markAccessible, .incRef 1, .incRef 2, .unmarkAccessible, .decRef 2] = some s ∧
      s.refs = [1] ∧ ∃ v, decRef s.refCount = .ok (v &&& kRefMask, v) ∧ v &&& kRefMask = 0 := by
  obtain ⟨s, hrun, hs⟩ : ∃ s, exec step init
      [.markAccessible, .incRef 1, .incRef 2, .unmarkAccessible, .decRef 2] = some s ∧
      s = ⟨1, [1], [], []⟩ := by decide
  subst hs
  obtain ⟨v, hdec, -, hzero⟩ := decRef_zero_iff hrun mem_cons_self
  exact ⟨_, hrun, rfl, v, hdec, hzero.mpr (by decide)⟩

end CacheLib.Refcount
