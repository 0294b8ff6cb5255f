/-
The allocator inside a `BigHash` bucket (`cachelib/navy/bighash/BucketStorage.h` and
`.cpp`): slots one after another from the start of a buffer, each a four-byte size and
then its data. New slots go to the end. Removing slots moves what lies behind them
towards the front.

An `Allocation` is a pointer into the buffer, so it is only good until something is
moved. What the functions amount to is said by `Holds`: the buffer starts with the slots
of a list, and each operation is the one on that list it is meant to be.
-/
import CacheLib.Lib.Bytes

set_option autoImplicit false

namespace CacheLib.Navy

open Bytes List

/-- `BucketStorage`. `data` is the memory behind the three fields, `capacity` bytes of
which belong to the storage. -/
structure BucketStorage where
  capacity : ℕ
  numAllocations : ℕ := 0
  endOffset : ℕ := 0
  data : Memory

namespace BucketStorage

/-- An `Allocation` that is not `done()`: where its view starts in `data`, its size, and
its index. -/
structure Allocation where
  offset : ℕ
  size : ℕ
  position : ℕ
  deriving DecidableEq, Repr

/-- `a - b` in a `uint32_t` -/
def sub32 (a b : ℕ) : ℕ := (a + 2 ^ 32 - b) % 2 ^ 32

/-- `kAllocationOverhead`: the size of a `Slot` -/
def kAllocationOverhead : ℕ := 4

def slotSize (size : ℕ) : ℕ := (kAllocationOverhead + size) % 2 ^ 32

variable (s : BucketStorage)

def remainingCapacity : ℕ := sub32 s.capacity s.endOffset

def canAllocate (size : ℕ) : Bool := s.endOffset + slotSize size ≤ s.capacity

/-- `Slot::size` of the slot at `offset` -/
def sizeAt (offset : ℕ) : ℕ := ofLE (read s.data offset 4)

def allocate (size : ℕ) : BucketStorage × Option Allocation :=
  if s.canAllocate size then
    ({ s with
        data := write s.data s.endOffset (toLE 4 size)
        endOffset := (s.endOffset + slotSize size) % 2 ^ 32
        numAllocations := (s.numAllocations + 1) % 2 ^ 32 },
      some ⟨s.endOffset + kAllocationOverhead, size, s.numAllocations⟩)
  else (s, none)

def getFirst : Option Allocation :=
  if s.endOffset = 0 then none else some ⟨kAllocationOverhead, s.sizeAt 0, 0⟩

def getNext (alloc : Allocation) : Option Allocation :=
  let next := alloc.offset + alloc.size
  if s.endOffset ≤ next then none
  else some ⟨next + kAllocationOverhead, s.sizeAt next, (alloc.position + 1) % 2 ^ 32⟩

/-- What `for (itr = ...; !itr.done(); itr = getNext(itr))` goes through. -/
def iterate : ℕ → Option Allocation → List Allocation
  | _, none => []
  | 0, some _ => []
  | fuel + 1, some alloc => alloc :: iterate fuel (s.getNext alloc)

/-- The allocations, in the order of an iteration from `getFirst` on. -/
def allocations : List Allocation := s.iterate s.endOffset s.getFirst

/-- The loop of `remove` in progress: valid data from `srcOffset` on has still to be
moved to `dstOffset`. -/
structure Compaction where
  storage : BucketStorage
  srcOffset : ℕ := 0
  dstOffset : ℕ := 0

/-- Data from `srcOffset` up to `removedOffset` moved, if there is any. -/
def Compaction.move (c : Compaction) (removedOffset : ℕ) : Compaction :=
  if c.srcOffset = removedOffset then c
  else
    let len := sub32 removedOffset c.srcOffset
    { c with
        storage.data := if c.dstOffset = c.srcOffset then c.storage.data
          else memmove c.storage.data c.dstOffset c.srcOffset len
        dstOffset := (c.dstOffset + len) % 2 ^ 32 }

/-- One round of the loop. -/
def Compaction.next (c : Compaction) (alloc : Allocation) : Compaction :=
  let allocOffset := alloc.offset % 2 ^ 32
  let c := c.move (sub32 allocOffset kAllocationOverhead)
  { c with
      srcOffset := (allocOffset + alloc.size) % 2 ^ 32
      storage.numAllocations := sub32 c.storage.numAllocations 1 }

/-- The rest of the data, after the last allocation that is removed. Here the code moves
without looking whether source and destination are the same. -/
def Compaction.finish (c : Compaction) : BucketStorage :=
  if c.srcOffset = c.storage.endOffset then { c.storage with endOffset := c.dstOffset }
  else
    let len := sub32 c.storage.endOffset c.srcOffset
    { c.storage with
        data := memmove c.storage.data c.dstOffset c.srcOffset len
        endOffset := (c.dstOffset + len) % 2 ^ 32 }

def remove (allocs : List Allocation) : BucketStorage :=
  if allocs.isEmpty then s
  else (allocs.foldl Compaction.next { storage := s }).finish

/-- `removeUntil`, for an allocation that is not `done()` -/
def removeUntil (alloc : Allocation) : BucketStorage :=
  let offset := (alloc.offset + alloc.size) % 2 ^ 32
  if s.endOffset < offset then s
  else
    { s with
        data := memmove s.data 0 offset (s.endOffset - offset)
        endOffset := sub32 s.endOffset offset
        numAllocations := sub32 s.numAllocations ((alloc.position + 1) % 2 ^ 32) }

/-! ## What a storage holds -/

/-- A slot with the data `x`. -/
def slotBytes (x : List UInt8) : List UInt8 := toLE 4 x.length ++ x

/-- The storage holds the data `xs`, in this order. -/
structure Holds (xs : List (List UInt8)) : Prop where
  content : At s.data 0 (xs.flatMap slotBytes)
  endOffset_eq : s.endOffset = (xs.flatMap slotBytes).length
  numAllocations_eq : s.numAllocations = xs.length
  endOffset_le : s.endOffset ≤ s.capacity
  capacity_lt : s.capacity < 2 ^ 32

/-- The allocations for the data `xs`, if the first slot is at `offset` and has the index
`position`. -/
def places : ℕ → ℕ → List (List UInt8) → List Allocation
  | _, _, [] => []
  | offset, position, x :: xs =>
      ⟨offset + 4, x.length, position⟩ :: places (offset + 4 + x.length) (position + 1) xs

variable {s} {xs ys : List (List UInt8)} {x : List UInt8}

theorem sub32_of_le {a b : ℕ} (h : b ≤ a) (ha : a < 2 ^ 32) : sub32 a b = a - b := by
  unfold sub32
  omega

@[simp] theorem length_slotBytes (x : List UInt8) : (slotBytes x).length = 4 + x.length := by
  rw [slotBytes, length_append, length_toLE]

theorem length_flatMap_cons (x : List UInt8) (xs : List (List UInt8)) :
    ((x :: xs).flatMap slotBytes).length = 4 + x.length + (xs.flatMap slotBytes).length := by
  rw [flatMap_cons, length_append, length_slotBytes]

theorem length_le_flatMap (xs : List (List UInt8)) : 4 * xs.length ≤ (xs.flatMap slotBytes).length := by
  induction xs with
  | nil => exact Nat.le_refl 0
  | cons x xs ih =>
      rw [length_flatMap_cons, length_cons]
      omega

theorem Holds.length_lt (h : s.Holds xs) : xs.length < 2 ^ 32 := by
  have hle := length_le_flatMap xs
  have heq := h.endOffset_eq
  have hcap := h.endOffset_le
  have hlt := h.capacity_lt
  omega

theorem Holds.remainingCapacity_eq (h : s.Holds xs) :
    s.remainingCapacity = s.capacity - s.endOffset :=
  sub32_of_le h.endOffset_le h.capacity_lt

/-! ## Iteration -/

/-- An iteration that stands at the slots of `xs` goes through them. -/
theorem iterate_places (offset position fuel : ℕ)
    (hcontent : At s.data offset (xs.flatMap slotBytes))
    (hend : s.endOffset = offset + (xs.flatMap slotBytes).length)
    (hposition : position + xs.length < 2 ^ 32) (hlt : s.endOffset < 2 ^ 32)
    (hfuel : xs.length ≤ fuel) :
    s.iterate fuel (if s.endOffset ≤ offset then none
      else some ⟨offset + kAllocationOverhead, s.sizeAt offset, position⟩)
      = places offset position xs := by
  induction xs generalizing offset position fuel with
  | nil =>
      rw [flatMap_nil, length_nil, Nat.add_zero] at hend
      rw [if_pos (Nat.le_of_eq hend)]
      cases fuel with
      | zero => rfl
      | succ fuel => rfl
  | cons x xs ih =>
      rw [length_flatMap_cons] at hend
      rw [flatMap_cons, slotBytes, append_assoc, at_append, at_append, length_toLE]
        at hcontent
      obtain ⟨hsize, -, hrest⟩ := hcontent
      rw [length_cons] at hposition hfuel
      have hsizeAt : s.sizeAt offset = x.length := hsize.ofLE_read (by omega)
      obtain ⟨fuel, rfl⟩ : ∃ n, fuel = n + 1 := ⟨fuel - 1, by omega⟩
      rw [if_neg (by omega), iterate, places, hsizeAt]
      congr 1
      have hnext : (position + 1) % 2 ^ 32 = position + 1 := Nat.mod_eq_of_lt (by omega)
      have hrec := ih (offset + 4 + x.length) (position + 1) fuel hrest (by omega) (by omega) (by omega)
      rw [getNext, hnext]
      exact hrec

theorem Holds.allocations_eq (h : s.Holds xs) : s.allocations = places 0 0 xs := by
  have hlength := length_le_flatMap xs
  have hend := h.endOffset_eq
  have hlt := Nat.lt_of_le_of_lt h.endOffset_le h.capacity_lt
  have hplaces := iterate_places 0 0 s.endOffset h.content (by omega) (by omega) hlt (by omega)
  simp only [Nat.zero_add, Nat.le_zero] at hplaces
  exact hplaces

/-! ## Allocating -/

theorem slotSize_of_lt {size : ℕ} (h : 4 + size < 2 ^ 32) : slotSize size = 4 + size :=
  Nat.mod_eq_of_lt h

/-- A new slot goes behind the others. -/
theorem Holds.allocate_eq (h : s.Holds xs) {size : ℕ}
    (hfits : s.endOffset + 4 + size ≤ s.capacity) :
    s.allocate size
      = ({ s with
            data := write s.data s.endOffset (toLE 4 size)
            endOffset := s.endOffset + 4 + size
            numAllocations := xs.length + 1 },
          some ⟨s.endOffset + 4, size, xs.length⟩) := by
  have hlt := h.capacity_lt
  have hslot : slotSize size = 4 + size := slotSize_of_lt (by omega)
  have hcan : s.canAllocate size = true := decide_eq_true (by omega)
  have hlength := length_le_flatMap xs
  have hend := h.endOffset_eq
  have hendOffset : (s.endOffset + slotSize size) % 2 ^ 32 = s.endOffset + 4 + size := by omega
  have hnum : (xs.length + 1) % 2 ^ 32 = xs.length + 1 := by omega
  rw [allocate, if_pos hcan, hendOffset, h.numAllocations_eq, hnum]
  rfl

/-- When the slot has been filled, the storage holds what is in it as well. -/
theorem Holds.push (h : s.Holds xs) (hfits : s.endOffset + 4 + x.length ≤ s.capacity)
    {data : Memory} (hxs : At data 0 (xs.flatMap slotBytes)) (hx : At data s.endOffset (slotBytes x)) :
    ({ s with
        data := data
        endOffset := s.endOffset + 4 + x.length
        numAllocations := xs.length + 1 } : BucketStorage).Holds (xs ++ [x]) := by
  refine ⟨?_, ?_, ?_, hfits, h.capacity_lt⟩
  · rw [flatMap_append, flatMap_singleton, at_append, ← h.endOffset_eq, Nat.zero_add]
    exact ⟨hxs, hx⟩
  · rw [flatMap_append, flatMap_singleton, length_append, length_slotBytes,
      ← h.endOffset_eq, Nat.add_assoc]
  · rw [length_append, length_singleton]

/-! ## Removing -/

/-- The data whose allocations are not among the removed ones. -/
def kept (removed : Allocation → Bool) : ℕ → ℕ → List (List UInt8) → List (List UInt8)
  | _, _, [] => []
  | offset, position, x :: xs =>
      let rest := kept removed (offset + 4 + x.length) (position + 1) xs
      if removed ⟨offset + 4, x.length, position⟩ then rest else x :: rest

theorem kept_eq_self {removed : Allocation → Bool} {offset position : ℕ}
    (h : (places offset position xs).filter removed = []) : kept removed offset position xs = xs := by
  induction xs generalizing offset position with
  | nil => rfl
  | cons x xs ih =>
      rw [places, filter_cons] at h
      split at h
      · exact absurd h (cons_ne_nil _ _)
      · rename_i hstays
        rw [kept, if_neg hstays, ih h]

theorem length_kept_le (removed : Allocation → Bool) (offset position : ℕ)
    (xs : List (List UInt8)) :
    ((kept removed offset position xs).flatMap slotBytes).length ≤ (xs.flatMap slotBytes).length := by
  induction xs generalizing offset position with
  | nil => exact Nat.le_refl 0
  | cons x xs ih =>
      have hrest := ih (offset + 4 + x.length) (position + 1)
      rw [length_flatMap_cons, kept]
      split
      · omega
      · rw [length_flatMap_cons]
        omega

/-- The loop of `remove` between two rounds. -/
structure Compaction.Midway (c : Compaction) (moved pending : List UInt8)
    (xs : List (List UInt8)) (count : ℕ) : Prop where
  moved_at : At c.storage.data 0 moved
  dstOffset_eq : c.dstOffset = moved.length
  pending_at : At c.storage.data c.srcOffset (pending ++ xs.flatMap slotBytes)
  dst_le : c.dstOffset ≤ c.srcOffset
  endOffset_eq : c.storage.endOffset = c.srcOffset + pending.length + (xs.flatMap slotBytes).length
  endOffset_lt : c.storage.endOffset < 2 ^ 32
  numAllocations_eq : c.storage.numAllocations = count + xs.length
  numAllocations_lt : c.storage.numAllocations < 2 ^ 32

namespace Compaction.Midway

variable {c : Compaction} {moved pending : List UInt8} {count : ℕ}

/-- A slot that stays is pending. -/
theorem skip (h : c.Midway moved pending (x :: xs) count) :
    c.Midway moved (pending ++ slotBytes x) xs (count + 1) where
  moved_at := h.moved_at
  dstOffset_eq := h.dstOffset_eq
  pending_at := by
    rw [append_assoc, ← flatMap_cons]
    exact h.pending_at
  dst_le := h.dst_le
  endOffset_eq := by
    have hend := h.endOffset_eq
    rw [length_flatMap_cons] at hend
    rw [length_append, length_slotBytes]
    omega
  endOffset_lt := h.endOffset_lt
  numAllocations_eq := by
    have hnum := h.numAllocations_eq
    rw [length_cons] at hnum
    omega
  numAllocations_lt := h.numAllocations_lt

/-- The pending data is moved behind what has been moved before. -/
theorem move (h : c.Midway moved pending xs count) :
    ∃ data, At data 0 (moved ++ pending) ∧
      At data (c.srcOffset + pending.length) (xs.flatMap slotBytes) ∧
      c.move (c.srcOffset + pending.length)
        = { c with storage.data := data, dstOffset := (moved ++ pending).length } := by
  obtain ⟨hpending, hrest⟩ := at_append.mp h.pending_at
  have hdst := h.dstOffset_eq
  have hle := h.dst_le
  have hend := h.endOffset_eq
  have hlt := h.endOffset_lt
  unfold Compaction.move
  by_cases hnil : c.srcOffset = c.srcOffset + pending.length
  · -- nothing is pending
    have hpendingNil : pending = [] := length_eq_zero_iff.mp (by omega)
    subst hpendingNil
    rw [if_pos hnil, append_nil, ← hdst]
    exact ⟨c.storage.data, h.moved_at, hrest, rfl⟩
  have hdstEq : (moved.length + pending.length) % 2 ^ 32 = (moved ++ pending).length := by
    rw [length_append]
    omega
  rw [if_neg hnil, sub32_of_le (by omega) (by omega), Nat.add_sub_cancel_left, hdst]
  dsimp only
  rw [hdstEq]
  by_cases hsame : moved.length = c.srcOffset
  · rw [if_pos hsame]
    refine ⟨c.storage.data, ?_, hrest, rfl⟩
    rw [at_append, Nat.zero_add, hsame]
    exact ⟨h.moved_at, hpending⟩
  · rw [if_neg hsame]
    refine ⟨_, ?_, ?_, rfl⟩
    · rw [at_append, Nat.zero_add]
      exact ⟨h.moved_at.memmove_of_disjoint (by omega) _, hpending.memmove _⟩
    · exact hrest.memmove_of_disjoint (by omega) _

/-- A round of the loop drops a slot. -/
theorem next (h : c.Midway moved pending (x :: xs) count) {offset : ℕ}
    (hoffset : offset = c.srcOffset + pending.length) (position : ℕ) :
    (c.next ⟨offset + 4, x.length, position⟩).Midway (moved ++ pending) [] xs count ∧
      (c.next ⟨offset + 4, x.length, position⟩).srcOffset = offset + 4 + x.length ∧
      (c.next ⟨offset + 4, x.length, position⟩).storage.capacity = c.storage.capacity ∧
      (c.next ⟨offset + 4, x.length, position⟩).storage.endOffset = c.storage.endOffset := by
  subst hoffset
  obtain ⟨data, hmoved, hrest, hmove⟩ := h.move
  have hdst := h.dstOffset_eq
  have hle := h.dst_le
  have hend := h.endOffset_eq
  have hlt := h.endOffset_lt
  have hnum := h.numAllocations_eq
  have hnumLt := h.numAllocations_lt
  rw [length_flatMap_cons] at hend
  rw [length_cons] at hnum
  rw [flatMap_cons, at_append, length_slotBytes, ← Nat.add_assoc] at hrest
  have halloc : (c.srcOffset + pending.length + 4) % 2 ^ 32 = c.srcOffset + pending.length + 4 := by
    omega
  have hsub : sub32 (c.srcOffset + pending.length + 4) 4 = c.srcOffset + pending.length := by
    rw [sub32_of_le (by omega) (by omega), Nat.add_sub_cancel]
  have hsrc : (c.srcOffset + pending.length + 4 + x.length) % 2 ^ 32
      = c.srcOffset + pending.length + 4 + x.length := by omega
  have hcount : sub32 c.storage.numAllocations 1 = c.storage.numAllocations - 1 :=
    sub32_of_le (by omega) hnumLt
  simp only [Compaction.next, kAllocationOverhead, halloc, hsub, hmove, hsrc, hcount]
  refine ⟨⟨hmoved, rfl, hrest.2, ?_, ?_, hlt, ?_, ?_⟩, trivial, trivial, trivial⟩
  · show (moved ++ pending).length ≤ c.srcOffset + pending.length + 4 + x.length
    rw [length_append]
    omega
  · show c.storage.endOffset = c.srcOffset + pending.length + 4 + x.length + 0 + _
    omega
  · show c.storage.numAllocations - 1 = count + xs.length
    omega
  · show c.storage.numAllocations - 1 < 2 ^ 32
    omega

theorem finish (h : c.Midway moved pending [] count) :
    At c.finish.data 0 (moved ++ pending) ∧ c.finish.endOffset = (moved ++ pending).length ∧
      c.finish.numAllocations = count ∧ c.finish.capacity = c.storage.capacity := by
  have hpending := h.pending_at
  have hdst := h.dstOffset_eq
  have hle := h.dst_le
  have hend := h.endOffset_eq
  have hlt := h.endOffset_lt
  have hnum : c.storage.numAllocations = count := h.numAllocations_eq
  rw [flatMap_nil, append_nil] at hpending
  rw [flatMap_nil, length_nil, Nat.add_zero] at hend
  unfold Compaction.finish
  by_cases hnil : c.srcOffset = c.storage.endOffset
  · have hpendingNil : pending = [] := length_eq_zero_iff.mp (by omega)
    subst hpendingNil
    rw [if_pos hnil, append_nil]
    exact ⟨h.moved_at, hdst, hnum, rfl⟩
  rw [if_neg hnil, hend, sub32_of_le (by omega) (by omega), Nat.add_sub_cancel_left, hdst,
    length_append]
  refine ⟨?_, ?_, hnum, rfl⟩
  · rw [at_append, Nat.zero_add]
    exact ⟨h.moved_at.memmove_of_disjoint (by omega) _, hpending.memmove _⟩
  · show (moved.length + pending.length) % 2 ^ 32 = _
    omega

/-- **The loop keeps what it has not been told to remove**, in its order. -/
theorem run (h : c.Midway moved pending xs count) (removed : Allocation → Bool) {offset : ℕ}
    (hoffset : offset = c.srcOffset + pending.length) (position : ℕ) :
    let t := (((places offset position xs).filter removed).foldl Compaction.next c).finish
    let rest := kept removed offset position xs
    At t.data 0 (moved ++ pending ++ rest.flatMap slotBytes) ∧
      t.endOffset = (moved ++ pending ++ rest.flatMap slotBytes).length ∧
      t.numAllocations = count + rest.length ∧ t.capacity = c.storage.capacity := by
  induction xs generalizing c moved pending count offset position with
  | nil => simpa [places, kept] using h.finish
  | cons x xs ih =>
      simp only [places, kept, filter_cons]
      split
      · -- the slot is removed: what was pending is moved, and nothing is pending now
        obtain ⟨hnext, hsrc, hcapacity, -⟩ := h.next hoffset position
        have hrest := ih hnext (hsrc.symm ▸ (Nat.add_zero _).symm) (position + 1)
        rw [hcapacity, append_nil] at hrest
        exact hrest
      · have hpending : offset + 4 + x.length = c.srcOffset + (pending ++ slotBytes x).length := by
          rw [length_append, length_slotBytes]
          omega
        obtain ⟨hdata, hend, hnum, hcapacity⟩ := ih h.skip hpending (position + 1)
        rw [flatMap_cons, length_cons, ← append_assoc, append_assoc moved pending]
        exact ⟨hdata, hend, by rw [hnum]; omega, hcapacity⟩

end Compaction.Midway

/-- `remove` takes the given allocations out and leaves the others, in their order. -/
theorem Holds.remove (h : s.Holds xs) (removed : Allocation → Bool) :
    (s.remove (s.allocations.filter removed)).Holds (kept removed 0 0 xs) ∧
      (s.remove (s.allocations.filter removed)).capacity = s.capacity := by
  have hend := h.endOffset_eq
  have hlt := Nat.lt_of_le_of_lt h.endOffset_le h.capacity_lt
  have hmidway : (⟨s, 0, 0⟩ : Compaction).Midway [] [] xs 0 :=
    { moved_at := at_nil
      dstOffset_eq := rfl
      pending_at := h.content
      dst_le := Nat.le_refl 0
      endOffset_eq := by rw [hend, length_nil, Nat.add_zero, Nat.zero_add]
      endOffset_lt := hlt
      numAllocations_eq := by rw [h.numAllocations_eq, Nat.zero_add]
      numAllocations_lt := h.numAllocations_eq ▸ h.length_lt }
  have hoffset : 0 = (⟨s, 0, 0⟩ : Compaction).srcOffset + ([] : List UInt8).length := rfl
  have hrun := hmidway.run removed hoffset 0
  rw [h.allocations_eq]
  unfold BucketStorage.remove
  split
  · rename_i hnone
    rw [List.isEmpty_iff] at hnone
    rw [kept_eq_self hnone]
    exact ⟨h, rfl⟩
  · obtain ⟨hdata, hendOffset, hnum, hcapacity⟩ := hrun
    refine ⟨⟨hdata, hendOffset, ?_, ?_, ?_⟩, hcapacity⟩
    · rw [hnum, Nat.zero_add]
    · rw [hendOffset, hcapacity]
      exact Nat.le_trans (length_kept_le removed 0 0 xs) (hend ▸ h.endOffset_le)
    · exact hcapacity ▸ h.capacity_lt

theorem places_append (offset position : ℕ) (xs ys : List (List UInt8)) :
    places offset position (xs ++ ys) = places offset position xs
      ++ places (offset + (xs.flatMap slotBytes).length) (position + xs.length) ys := by
  induction xs generalizing offset position with
  | nil => rfl
  | cons x xs ih =>
      rw [cons_append, places, places, ih, length_flatMap_cons, length_cons,
        cons_append]
      congr 3 <;> omega

theorem kept_append (removed : Allocation → Bool) (offset position : ℕ)
    (xs ys : List (List UInt8)) :
    kept removed offset position (xs ++ ys) = kept removed offset position xs
      ++ kept removed (offset + (xs.flatMap slotBytes).length) (position + xs.length) ys := by
  induction xs generalizing offset position with
  | nil => rfl
  | cons x xs ih =>
      rw [cons_append, kept, kept, ih, length_flatMap_cons, length_cons]
      have hoffset : offset + 4 + x.length + (xs.flatMap slotBytes).length
          = offset + (4 + x.length + (xs.flatMap slotBytes).length) := by omega
      have hposition : position + 1 + xs.length = position + (xs.length + 1) := by omega
      rw [hoffset, hposition]
      split
      · rfl
      · rfl

/-- Allocations are counted from the first one on. -/
theorem position_of_mem_places {offset position : ℕ} {alloc : Allocation}
    (h : alloc ∈ places offset position xs) :
    position ≤ alloc.position ∧ alloc.position < position + xs.length := by
  induction xs generalizing offset position with
  | nil => exact absurd h not_mem_nil
  | cons x xs ih =>
      rw [length_cons]
      rcases mem_cons.mp h with rfl | hmem
      · exact ⟨Nat.le_refl _, Nat.lt_add_of_pos_right (Nat.succ_pos _)⟩
      · have hrest := ih hmem
        omega

theorem filter_position_eq_nil (offset : ℕ) {position k : ℕ} (xs : List (List UInt8))
    (h : k < position ∨ position + xs.length ≤ k) :
    (places offset position xs).filter (fun alloc => alloc.position == k) = [] := by
  rw [filter_eq_nil_iff]
  intro alloc hmem
  have hposition := position_of_mem_places hmem
  rw [beq_iff_eq]
  omega

/-- `remove` with one allocation. -/
theorem Holds.remove_one (h : s.Holds (xs ++ x :: ys)) :
    let alloc : Allocation := ⟨(xs.flatMap slotBytes).length + 4, x.length, xs.length⟩
    (s.remove [alloc]).Holds (xs ++ ys) ∧ (s.remove [alloc]).capacity = s.capacity := by
  have hbefore : (places 0 0 xs).filter (fun alloc => alloc.position == xs.length) = [] :=
    filter_position_eq_nil 0 xs (Or.inr (by omega))
  have hbehind : ∀ offset, (places offset (xs.length + 1) ys).filter
      (fun alloc => alloc.position == xs.length) = [] :=
    fun offset => filter_position_eq_nil offset ys (Or.inl (by omega))
  have hone : s.allocations.filter (fun alloc => alloc.position == xs.length)
      = [⟨(xs.flatMap slotBytes).length + 4, x.length, xs.length⟩] := by
    rw [h.allocations_eq, places_append, places, filter_append, hbefore, Nat.zero_add,
      Nat.zero_add, nil_append, filter_cons, hbehind]
    exact if_pos (beq_self_eq_true xs.length)
  have hkept : kept (fun alloc => alloc.position == xs.length) 0 0 (xs ++ x :: ys) = xs ++ ys := by
    rw [kept_append, kept_eq_self hbefore, Nat.zero_add, Nat.zero_add, kept,
      kept_eq_self (hbehind _)]
    exact congrArg _ (if_pos (beq_self_eq_true xs.length))
  have hremove := h.remove fun alloc => alloc.position == xs.length
  rw [hone, hkept] at hremove
  exact hremove

/-- `removeUntil` drops the slots up to the given one. -/
theorem Holds.removeUntil (h : s.Holds (xs ++ x :: ys)) :
    (s.removeUntil ⟨(xs.flatMap slotBytes).length + 4, x.length, xs.length⟩).Holds ys ∧
      (s.removeUntil ⟨(xs.flatMap slotBytes).length + 4, x.length, xs.length⟩).capacity
        = s.capacity := by
  have hcontent := h.content
  have hend := h.endOffset_eq
  have hnum := h.numAllocations_eq
  have hle := h.endOffset_le
  have hlt := h.capacity_lt
  have hnumLt := h.length_lt
  rw [flatMap_append, length_append, length_flatMap_cons] at hend
  rw [length_append, length_cons] at hnum hnumLt
  rw [flatMap_append, at_append, flatMap_cons, at_append, length_slotBytes, Nat.zero_add]
    at hcontent
  have hoffset : ((xs.flatMap slotBytes).length + 4 + x.length) % 2 ^ 32
      = (xs.flatMap slotBytes).length + (4 + x.length) := by omega
  have hrest : s.endOffset - ((xs.flatMap slotBytes).length + (4 + x.length))
      = (ys.flatMap slotBytes).length := by omega
  have hposition : (xs.length + 1) % 2 ^ 32 = xs.length + 1 := by omega
  have hsubEnd : sub32 s.endOffset ((xs.flatMap slotBytes).length + (4 + x.length))
      = (ys.flatMap slotBytes).length := by rw [sub32_of_le (by omega) (by omega), hrest]
  have hsubNum : sub32 s.numAllocations (xs.length + 1) = s.numAllocations - (xs.length + 1) :=
    sub32_of_le (by omega) (by omega)
  rw [BucketStorage.removeUntil]
  simp only [hoffset, hrest, hposition, hsubEnd, hsubNum]
  rw [if_neg (by omega)]
  refine ⟨⟨hcontent.2.2.memmove 0, rfl, ?_, ?_, hlt⟩, rfl⟩
  · show s.numAllocations - (xs.length + 1) = ys.length
    omega
  · show (ys.flatMap slotBytes).length ≤ s.capacity
    omega

end BucketStorage

end CacheLib.Navy
