/-
An array of Bloom filters, and how it is persisted and recovered
(`cachelib/common/BloomFilter.h` and `.cpp`).

All filters share one array of bytes, and in a filter each hash function has a table of
`hashTableBitSize` bits. The sizes are computed as the constructor does it, in 64 bits, whatever
it is given, and an access outside of the array has no result. A stream of records is a list;
`none` is a record that cannot be read.
-/
import CacheLib.Lib.BitArray
import CacheLib.Lib.Run
import Mathlib.Data.UInt
import Mathlib.Tactic.Tauto

set_option autoImplicit false

namespace CacheLib

open List BitArray

/-- `BloomFilter` without `bits_` -/
structure BloomBank where
  numFilters : UInt32
  hashTableBitSize : UInt64
  filterByteSize : ℕ
  seeds : List UInt64

namespace BloomBank

/-- `bits_` -/
abbrev Bits := List (BitVec 8)

def bitsToBytes (bits : ℕ) : ℕ := (bits + 7) % 2 ^ 64 / 8

def getByteSize (b : BloomBank) : ℕ := b.numFilters.toNat * b.filterByteSize % 2 ^ 64

/-- The constructor. It throws when one of the numbers is 0. -/
def make (hashInt : UInt64 → UInt64) (numFilters numHashes : UInt32) (hashTableBitSize : UInt64) :
    Option (BloomBank × Bits) :=
  if numFilters = 0 ∨ numHashes = 0 ∨ hashTableBitSize = 0 then none
  else
    let b : BloomBank :=
      { numFilters, hashTableBitSize
        filterByteSize := bitsToBytes (numHashes.toNat * hashTableBitSize.toNat % 2 ^ 64)
        seeds := (range numHashes.toNat).map fun i => hashInt (UInt64.ofNat i) }
    some (b, replicate b.getByteSize 0)

variable (combineHashes : UInt64 → UInt64 → UInt64) (b : BloomBank)

def getFilterBytes (idx : ℕ) : ℕ := idx * b.filterByteSize % 2 ^ 64

/-- The bits that the loops of `set` and `couldExist` come to. -/
def bitsFrom (idx : ℕ) (key : UInt64) : List UInt64 → ℕ → List ℕ
  | [], _ => []
  | seed :: seeds, firstBit =>
      let bitNum := (combineHashes key seed).toNat % b.hashTableBitSize.toNat
      (8 * b.getFilterBytes idx + (firstBit + bitNum) % 2 ^ 64)
        :: bitsFrom idx key seeds ((firstBit + b.hashTableBitSize.toNat) % 2 ^ 64)

def bitsOf (idx : ℕ) (key : UInt64) : List ℕ := b.bitsFrom combineHashes idx key b.seeds 0

def set (bits : Bits) (idx : ℕ) (key : UInt64) : Option Bits :=
  setAll bits (b.bitsOf combineHashes idx key)

def couldExist (bits : Bits) (idx : ℕ) (key : UInt64) : Option Bool :=
  allSet bits (b.bitsOf combineHashes idx key)

def clear (bits : Bits) (idx : ℕ) : Option Bits :=
  zero bits (b.getFilterBytes idx) b.filterByteSize

/-! ## Persisting and recovering -/

/-- `BloomFilterPersistentData` -/
structure PersistentData where
  numFilters : UInt32
  hashTableBitSize : UInt64
  filterByteSize : ℕ
  fragmentSize : ℕ
  seeds : List UInt64

def kPersistFragmentSize : ℕ := 1024 * 1024

/-- A loop of `serializeBits`, over the bytes that are left. Each round writes one at least. -/
def serializeLoop (fragmentSize : ℕ) : ℕ → Bits → List Bits
  | 0, _ => []
  | fuel + 1, rest =>
      if rest = [] then []
      else rest.take fragmentSize :: serializeLoop fragmentSize fuel (rest.drop fragmentSize)

/-- `serializeBits`: the bits, and the zeroes that stand for the init bits there once were -/
def serializeBits (bits : Bits) (fragmentSize : ℕ) : List Bits :=
  let fakeInitBits := replicate (bitsToBytes b.numFilters.toNat) 0
  serializeLoop fragmentSize bits.length bits
    ++ serializeLoop fragmentSize fakeInitBits.length fakeInitBits

def persist (serialize : PersistentData → Bits) (bits : Bits) : List Bits :=
  let bd : PersistentData :=
    { numFilters := b.numFilters, hashTableBitSize := b.hashTableBitSize
      filterByteSize := b.filterByteSize, fragmentSize := kPersistFragmentSize, seeds := b.seeds }
  serialize bd :: b.serializeBits bits bd.fragmentSize

/-- How a recovery can fail: by an exception, or by a write outside of `bits_` or `seeds_`. -/
inductive Fault
  | threw
  | outside
  deriving DecidableEq

/-- The first loop of `deserializeBits`: the bits, how many bytes have been consumed, and the
records that are left -/
def readBits (size : ℕ) : List (Option Bits) → ℕ → Bits → Except Fault (Bits × ℕ × List (Option Bits))
  | [], off, bits => if off < size then .error .threw else .ok (bits, off, [])
  | record :: stream, off, bits =>
      if off < size then
        match record with
        | none => .error .threw
        | some buf =>
            if off + buf.length ≤ bits.length then
              readBits size stream (off + buf.length)
                (bits.take off ++ buf ++ bits.drop (off + buf.length))
            else .error .outside
      else .ok (bits, off, record :: stream)

/-- The second loop of `deserializeBits` -/
def skipInit (size : ℕ) : List (Option Bits) → ℕ → Except Fault (List (Option Bits))
  | [], off => if off < size then .error .threw else .ok []
  | record :: stream, off =>
      if off < size then
        match record with
        | none => .error .threw
        | some buf => skipInit size stream (off + buf.length)
      else .ok (record :: stream)

/-- The test of `recover`: whether the parameters are those of the filter -/
def accepts (bd : PersistentData) : Bool :=
  b.numFilters = bd.numFilters ∧ b.hashTableBitSize = bd.hashTableBitSize ∧
    b.filterByteSize = bd.filterByteSize ∧ bd.fragmentSize = kPersistFragmentSize

/-- `recover`: the filter, its bits, the number of bytes consumed for them, and the records left.
The loop over the seeds writes as many as the record has. -/
def recover (deserialize : Option Bits → Option PersistentData) (bits : Bits) :
    List (Option Bits) → Except Fault (BloomBank × Bits × ℕ × List (Option Bits))
  | [] => .error .threw
  | record :: stream =>
      match deserialize record with
      | none => .error .threw
      | some bd =>
          if !b.accepts bd then .error .threw
          else if b.seeds.length < bd.seeds.length then .error .outside
          else
            match readBits b.getByteSize stream 0 bits with
            | .error e => .error e
            | .ok (bits, off, stream) =>
                (skipInit (bitsToBytes b.numFilters.toNat) stream 0).map fun stream =>
                  ({ b with seeds := bd.seeds ++ b.seeds.drop bd.seeds.length }, bits, off, stream)

/-! ### What is recovered from a stream -/

variable {b} {bits : Bits}

/-- No fragment that is read is longer than what is left of the array. -/
def FragmentsFit (size : ℕ) : List (Option Bits) → ℕ → Prop
  | some buf :: stream, off =>
      off < size → off + buf.length ≤ size ∧ FragmentsFit size stream (off + buf.length)
  | _, _ => True

/-- The seeds fit, and so do the fragments, unless the parameters are not accepted anyway. -/
def StreamFits (deserialize : Option Bits → Option PersistentData) (b : BloomBank) :
    List (Option Bits) → Prop
  | [] => True
  | record :: stream => ∀ bd, deserialize record = some bd → b.accepts bd = true →
      bd.seeds.length ≤ b.seeds.length ∧ FragmentsFit b.getByteSize stream 0

/-- A recovery throws, or it stays inside of the arrays and consumes just the bytes of the filter. -/
def RecoversInside (deserialize : Option Bits → Option PersistentData) (b : BloomBank) (bits : Bits)
    (stream : List (Option Bits)) : Prop :=
  b.recover deserialize bits stream ≠ .error .outside ∧
    ∀ b' bits' off rest, b.recover deserialize bits stream = .ok (b', bits', off, rest) →
      bits'.length = bits.length ∧ off = b.getByteSize

theorem readBits_of_le {size off : ℕ} (stream : List (Option Bits)) (h : size ≤ off) (bits : Bits) :
    readBits size stream off bits = .ok (bits, off, stream) := by
  cases stream with
  | nil => rw [readBits, if_neg (Nat.not_lt.mpr h)]
  | cons record stream => cases record <;> rw [readBits, if_neg (Nat.not_lt.mpr h)]

theorem length_overwrite {off : ℕ} {buf : Bits} (h : off + buf.length ≤ bits.length) :
    (bits.take off ++ buf ++ bits.drop (off + buf.length)).length = bits.length := by
  simp only [length_append, length_take, length_drop]
  omega

theorem readBits_spec {size off : ℕ} (stream : List (Option Bits)) (hsize : bits.length = size)
    (hoff : off ≤ size) :
    (readBits size stream off bits ≠ .error .outside ↔ FragmentsFit size stream off) ∧
      ∀ bits' off' rest, readBits size stream off bits = .ok (bits', off', rest) →
        bits'.length = size ∧ off' = size := by
  induction stream generalizing off bits with
  | nil =>
      rw [readBits]
      split
      · simp [FragmentsFit]
      · refine ⟨⟨fun _ => trivial, fun _ => nofun⟩, ?_⟩
        rintro _ _ _ ⟨⟩
        exact ⟨hsize, by omega⟩
  | cons record stream ih =>
      rcases Nat.lt_or_ge off size with hlt | hge
      · cases record with
        | none => simp [readBits, FragmentsFit, hlt]
        | some buf =>
            rw [readBits, if_pos hlt]
            by_cases hfits : off + buf.length ≤ size
            · have hrest := ih (length_overwrite (hsize.symm ▸ hfits) |>.trans hsize) hfits
              simp only [FragmentsFit, hsize, hlt, hfits, true_and, forall_const]
              exact hrest
            · simp [FragmentsFit, hsize, hfits, hlt]
      · rw [readBits_of_le _ hge]
        have hfit : FragmentsFit size (record :: stream) off := by
          cases record with
          | none => trivial
          | some buf => exact fun hlt => absurd hlt (Nat.not_lt.mpr hge)
        refine ⟨⟨fun _ => hfit, fun _ => nofun⟩, ?_⟩
        rintro _ _ _ ⟨⟩
        exact ⟨hsize, by omega⟩

theorem skipInit_ne_outside (size : ℕ) (stream : List (Option Bits)) (off : ℕ) :
    skipInit size stream off ≠ .error .outside := by
  induction stream generalizing off with
  | nil =>
      rw [skipInit]
      split <;> nofun
  | cons record stream ih =>
      cases record with
      | none =>
          rw [skipInit]
          split <;> nofun
      | some buf =>
          rw [skipInit]
          split
          · exact ih _
          · nofun

/-- **When a recovery stays inside.** For every filter and every stream of records: the recovery
throws, or writes only inside of the arrays and consumes the bytes of the filter, exactly if the
stream's seeds and fragments fit. -/
theorem recoversInside_iff (deserialize : Option Bits → Option PersistentData)
    (hbits : bits.length = b.getByteSize) (stream : List (Option Bits)) :
    RecoversInside deserialize b bits stream ↔ StreamFits deserialize b stream := by
  cases stream with
  | nil => simp [RecoversInside, recover, StreamFits]
  | cons record stream =>
      rw [RecoversInside, recover, StreamFits]
      cases deserialize record with
      | none => simp
      | some bd =>
          by_cases haccepts : b.accepts bd = true
          · simp only [haccepts, Bool.not_true, Bool.false_eq_true, if_false, Option.some.injEq,
              forall_eq', forall_const]
            by_cases hseeds : b.seeds.length < bd.seeds.length
            · simp [hseeds]
            · obtain ⟨houtside, hends⟩ := readBits_spec stream hbits (Nat.zero_le _)
              rw [if_neg hseeds, ← houtside, and_iff_right (Nat.not_lt.mp hseeds), hbits]
              cases hread : readBits b.getByteSize stream 0 bits with
              | error e => simp
              | ok r =>
                  obtain ⟨bits', off, rest⟩ := r
                  have hskip := skipInit_ne_outside (bitsToBytes b.numFilters.toNat) rest 0
                  cases hinit : skipInit (bitsToBytes b.numFilters.toNat) rest 0 with
                  | error e =>
                      rw [hinit] at hskip
                      simpa [Except.map, hinit] using hskip
                  | ok rest' =>
                      simp only [Except.map, hinit, ne_eq, reduceCtorEq, not_false_eq_true,
                        true_and, iff_true]
                      rintro _ _ _ _ ⟨⟩
                      exact hends bits' off rest hread
          · simp [haccepts]

/-- One filter with one hash function and a table of one bit. -/
def oneBit : BloomBank := ⟨1, 1, 1, [0]⟩

/-- What a filter with as many seeds and the other parameters of `oneBit` persists. -/
def oneBitData (seeds : List UInt64) : PersistentData := ⟨1, 1, 1, kPersistFragmentSize, seeds⟩

theorem recoversInside_iff_oneBit :
    RecoversInside (fun _ => some (oneBitData [0])) oneBit [0] [some [], some [1], some [0]] := by
  refine (recoversInside_iff _ rfl _).mpr ?_
  rintro _ ⟨⟩ _
  exact ⟨Nat.le_refl _, fun _ => ⟨Nat.le_refl _, fun h => absurd h (by decide)⟩⟩

/-- A fragment of two bytes is copied into an array of one, and a filter with two hash functions of
one bit, which has the same parameters otherwise, brings two seeds for one. -/
theorem writes_outside :
    ¬ RecoversInside (fun _ => some (oneBitData [0])) oneBit [0] [some [], some [1, 2], some [0]] ∧
      ¬ RecoversInside (fun _ => some (oneBitData [0, 1])) oneBit [0] [some [], some [1], some [0]] :=
  ⟨fun h => h.1 rfl, fun h => h.1 rfl⟩

/-! ### What was persisted is recovered -/

theorem readBits_serializeLoop (fragmentSize : ℕ) (hpos : 0 < fragmentSize)
    (tail : List (Option Bits)) (fuel : ℕ) (done rest old : Bits) (hfuel : rest.length ≤ fuel)
    (hold : old.length = rest.length) :
    readBits (done.length + rest.length)
      ((serializeLoop fragmentSize fuel rest).map some ++ tail) done.length (done ++ old)
      = .ok (done ++ rest, done.length + rest.length, tail) := by
  induction fuel generalizing done rest old with
  | zero =>
      obtain rfl : rest = [] := eq_nil_of_length_eq_zero (by omega)
      obtain rfl : old = [] := eq_nil_of_length_eq_zero hold
      exact readBits_of_le _ (Nat.le_refl _) _
  | succ fuel ih =>
      rw [serializeLoop]
      split
      · rename_i hnil
        subst hnil
        obtain rfl : old = [] := eq_nil_of_length_eq_zero hold
        exact readBits_of_le _ (Nat.le_refl _) _
      · rename_i hne
        have hlength := length_pos_iff.mpr hne
        have htake :
            (rest.take fragmentSize).length + (rest.drop fragmentSize).length = rest.length := by
          rw [← length_append, take_append_drop]
        rw [map_cons, cons_append, readBits, if_pos (by omega), if_pos (by
          rw [length_append]
          omega)]
        have hrec := ih (done ++ rest.take fragmentSize) (rest.drop fragmentSize)
          (old.drop (rest.take fragmentSize).length) (by rw [length_drop]; omega)
          (by rw [length_drop]; omega)
        simp only [length_append, Nat.add_assoc, htake, append_assoc,
          take_append_drop] at hrec
        rw [take_left, drop_append, drop_eq_nil_of_le (Nat.le_add_right _ _),
          nil_append, Nat.add_sub_cancel_left, append_assoc]
        exact hrec

theorem skipInit_serializeLoop (fragmentSize : ℕ) (hpos : 0 < fragmentSize) (fuel : ℕ) (rest : Bits)
    (off : ℕ) (hfuel : rest.length ≤ fuel) :
    skipInit (off + rest.length) ((serializeLoop fragmentSize fuel rest).map some) off = .ok [] := by
  induction fuel generalizing rest off with
  | zero =>
      obtain rfl : rest = [] := eq_nil_of_length_eq_zero (by omega)
      exact if_neg (Nat.lt_irrefl _)
  | succ fuel ih =>
      rw [serializeLoop]
      split
      · rename_i hnil
        subst hnil
        exact if_neg (Nat.lt_irrefl _)
      · rename_i hne
        have hlength := length_pos_iff.mpr hne
        have htake :
            (rest.take fragmentSize).length + (rest.drop fragmentSize).length = rest.length := by
          rw [← length_append, take_append_drop]
        have hrec := ih (rest.drop fragmentSize) (off + (rest.take fragmentSize).length)
          (by rw [length_drop]; omega)
        rw [Nat.add_assoc, htake] at hrec
        rw [map_cons, skipInit, if_pos (by omega)]
        exact hrec

/-- **What a filter has persisted** another one with the same parameters and seeds recovers. -/
theorem recover_persist {serialize : PersistentData → Bits}
    {deserialize : Option Bits → Option PersistentData}
    (hproto : ∀ bd, deserialize (some (serialize bd)) = some bd) {old : Bits}
    (hbits : bits.length = b.getByteSize) (hold : old.length = b.getByteSize) :
    b.recover deserialize old ((b.persist serialize bits).map some)
      = .ok (b, bits, b.getByteSize, []) := by
  have hread := readBits_serializeLoop kPersistFragmentSize (by decide)
    ((serializeLoop kPersistFragmentSize (bitsToBytes b.numFilters.toNat)
      (replicate (bitsToBytes b.numFilters.toNat) 0)).map some)
    bits.length [] bits old (Nat.le_refl _) (hold.trans hbits.symm)
  have hskip := skipInit_serializeLoop kPersistFragmentSize (by decide)
    (bitsToBytes b.numFilters.toNat) (replicate (bitsToBytes b.numFilters.toNat) 0) 0
    (Nat.le_of_eq length_replicate)
  rw [length_replicate, Nat.zero_add] at hskip
  simp only [length_nil, Nat.zero_add, nil_append, hbits] at hread
  have haccepts : b.accepts ⟨b.numFilters, b.hashTableBitSize, b.filterByteSize,
      kPersistFragmentSize, b.seeds⟩ = true := decide_eq_true ⟨rfl, rfl, rfl, rfl⟩
  rw [persist, map_cons, recover, hproto]
  simp only [haccepts, Bool.not_true, Bool.false_eq_true, if_false, Nat.lt_irrefl, serializeBits,
    map_append, length_replicate, hbits, hread, hskip, Except.map, drop_length,
    append_nil]

/-! ## The filters -/

inductive Op
  | set (idx : ℕ) (key : UInt64)
  | clear (idx : ℕ)
  | couldExist (idx : ℕ) (key : UInt64)

/-- The filter of a call. -/
def Op.idx : Op → ℕ
  | .set idx _ | .clear idx | .couldExist idx _ => idx

/-- A call. There is no result when it accesses a byte outside of the array. -/
def step (b : BloomBank) (bits : Bits) : Op → Option Bits
  | .set idx key => b.set combineHashes bits idx key
  | .clear idx => b.clear bits idx
  | .couldExist idx key => (b.couldExist combineHashes bits idx key).map fun _ => bits

/-- The keys that have been set in a filter, after one more call. -/
def keysAfter (idx : ℕ) (keys : List UInt64) : Op → List UInt64
  | .set i key => if i = idx then key :: keys else keys
  | .clear i => if i = idx then [] else keys
  | .couldExist _ _ => keys

/-- The keys that have been set in a filter since it was last cleared. -/
def setSince (idx : ℕ) (ops : List Op) : List UInt64 := ops.foldl (keysAfter idx) []

theorem mem_keysAfter_of_ne {idx : ℕ} {key : UInt64} {op : Op} (hop : op ≠ .clear idx)
    {keys : List UInt64} (h : key ∈ keys ∨ op = .set idx key) : key ∈ keysAfter idx keys op := by
  rcases op with ⟨i, k⟩ | i | ⟨i, k⟩ <;> simp only [keysAfter] <;> grind

/-- Between two clears no key gets lost. -/
theorem mem_foldl_keysAfter {idx : ℕ} {key : UInt64} {ops : List Op} (hops : .clear idx ∉ ops)
    {keys : List UInt64} (h : key ∈ keys ∨ .set idx key ∈ ops) :
    key ∈ ops.foldl (keysAfter idx) keys := by
  induction ops generalizing keys with
  | nil => exact h.resolve_right not_mem_nil
  | cons op ops ih =>
      have hne : op ≠ .clear idx := fun heq => hops (heq ▸ mem_cons_self)
      refine ih (mt (mem_cons_of_mem op) hops) ?_
      rcases h with h | h
      · exact .inl (mem_keysAfter_of_ne hne (.inl h))
      · exact (mem_cons.mp h).imp_left fun heq => mem_keysAfter_of_ne hne (.inr heq.symm)

/-- What is expected of the array after some calls. `empty` is the array of a new filter. -/
structure Answers (b : BloomBank) (empty : Bits) (ops : List Op) (bits : Bits) : Prop where
  positive : ∀ idx < b.numFilters.toNat, ∀ key ∈ setSince idx ops,
    b.couldExist combineHashes bits idx key = some true
  apart : ∀ op : Op, op.idx < b.numFilters.toNat → ∃ bits', b.step combineHashes bits op = some bits' ∧
    ∀ idx < b.numFilters.toNat, idx ≠ op.idx → ∀ key,
      b.couldExist combineHashes bits' idx key = b.couldExist combineHashes bits idx key
  recovered : ∀ serialize deserialize, (∀ bd, deserialize (some (serialize bd)) = some bd) →
    b.recover deserialize empty ((b.persist serialize bits).map some)
      = .ok (b, bits, b.getByteSize, [])

/-- The bits of each filter are in its bytes, and the array is as expected after any calls. -/
structure Serves (b : BloomBank) (empty : Bits) : Prop where
  inside : ∀ idx < b.numFilters.toNat, ∀ key, ∀ n ∈ b.bitsOf combineHashes idx key,
    b.getFilterBytes idx ≤ n / 8 ∧ n / 8 < b.getFilterBytes idx + b.filterByteSize
  answers : ∀ ops : List Op, (∀ op ∈ ops, op.idx < b.numFilters.toNat) →
    ∃ bits, Transition.exec (b.step combineHashes) empty ops = some bits ∧
      b.Answers combineHashes empty ops bits

/-- The sizes are what they are meant to be. -/
structure Roomy (b : BloomBank) : Prop where
  bits_pos : 0 < b.hashTableBitSize.toNat
  bits_le : b.seeds.length * b.hashTableBitSize.toNat ≤ 8 * b.filterByteSize
  bits_lt : b.seeds.length * b.hashTableBitSize.toNat < 2 ^ 64
  bytes_lt : b.numFilters.toNat * b.filterByteSize < 2 ^ 64

namespace Roomy

variable {combineHashes} {idx : ℕ} {key : UInt64} {n : ℕ}

theorem getByteSize_eq (h : b.Roomy) : b.getByteSize = b.numFilters.toNat * b.filterByteSize :=
  Nat.mod_eq_of_lt h.bytes_lt

/-- The filters follow each other in the array. -/
theorem bytes_le (h : b.Roomy) (hidx : idx < b.numFilters.toNat) :
    b.getFilterBytes idx = idx * b.filterByteSize ∧
      idx * b.filterByteSize + b.filterByteSize ≤ b.getByteSize := by
  have hle := Nat.mul_le_mul_right b.filterByteSize (Nat.succ_le_of_lt hidx)
  rw [Nat.succ_mul] at hle
  have hlt := h.bytes_lt
  rw [h.getByteSize_eq]
  exact ⟨Nat.mod_eq_of_lt (by omega), hle⟩

theorem mem_bitsOf (h : b.Roomy) (hmem : n ∈ b.bitsOf combineHashes idx key) :
    b.getFilterBytes idx ≤ n / 8 ∧ n / 8 < b.getFilterBytes idx + b.filterByteSize := by
  -- what is left of the tables, counted from the first bit of the next one
  have hloop : ∀ seeds firstBit, firstBit + seeds.length * b.hashTableBitSize.toNat < 2 ^ 64 →
      n ∈ b.bitsFrom combineHashes idx key seeds firstBit → 8 * b.getFilterBytes idx ≤ n ∧
        n < 8 * b.getFilterBytes idx + (firstBit + seeds.length * b.hashTableBitSize.toNat) := by
    intro seeds
    induction seeds with
    | nil => exact fun _ _ hmem => absurd hmem not_mem_nil
    | cons seed seeds ih =>
        intro firstBit hlt hmem
        have hbit := Nat.mod_lt (combineHashes key seed).toNat h.bits_pos
        rw [length_cons, Nat.succ_mul seeds.length] at hlt ⊢
        rcases mem_cons.mp hmem with rfl | hrest
        · omega
        · have hrec := ih _ (by omega) hrest
          omega
  have hbits := hloop b.seeds 0 (by rw [Nat.zero_add]; exact h.bits_lt) hmem
  have hle := h.bits_le
  omega

/-- A byte of one filter is not one of another. -/
theorem disjoint (h : b.Roomy) {idx' : ℕ} (hidx : idx < b.numFilters.toNat)
    (hidx' : idx' < b.numFilters.toNat) (hne : idx' ≠ idx)
    (hn : b.getFilterBytes idx' ≤ n ∧ n < b.getFilterBytes idx' + b.filterByteSize) :
    ¬ (b.getFilterBytes idx ≤ n ∧ n < b.getFilterBytes idx + b.filterByteSize) := by
  rw [(h.bytes_le hidx).1]
  rw [(h.bytes_le hidx').1] at hn
  intro hn'
  rcases Nat.lt_or_gt_of_ne hne with hlt | hlt
  all_goals
    have hmul := Nat.mul_le_mul_right b.filterByteSize (Nat.succ_le_of_lt hlt)
    rw [Nat.succ_mul] at hmul
    omega

theorem step_spec (h : b.Roomy) (hbits : bits.length = b.getByteSize) {op : Op}
    (hop : op.idx < b.numFilters.toNat) :
    ∃ bits', b.step combineHashes bits op = some bits' ∧ bits'.length = b.getByteSize ∧
      (∀ n, ¬ (b.getFilterBytes op.idx ≤ n / 8 ∧ n / 8 < b.getFilterBytes op.idx + b.filterByteSize) →
        get bits' n = get bits n) ∧
      ∀ idx < b.numFilters.toNat, ∀ keys,
        (∀ key ∈ keys, b.couldExist combineHashes bits idx key = some true) →
        ∀ key ∈ keysAfter idx keys op, b.couldExist combineHashes bits' idx key = some true := by
  have hroom := h.bytes_le hop
  have hin : ∀ key, ∀ n ∈ b.bitsOf combineHashes op.idx key, n / 8 < bits.length := by
    intro key n hn
    have hbounds := h.mem_bitsOf hn
    omega
  cases op with
  | set i key =>
      dsimp only [Op.idx] at hin ⊢
      obtain ⟨bits', hset, hlength, hget⟩ := exists_setAll (hin key)
      refine ⟨bits', hset, hlength.trans hbits, ?_, ?_⟩
      · intro n hn
        have hnot : n ∉ b.bitsOf combineHashes i key := fun hmem => hn (h.mem_bitsOf hmem)
        rw [hget, decide_eq_false hnot]
        simp
      · intro idx _ keys hkeys key' hkey'
        refine allSet_eq_true_iff.mpr fun n hn => ?_
        have hold : key' ∈ keys → get bits' n = some true := fun hmem => by
          rw [hget, allSet_eq_true_iff.mp (hkeys key' hmem) n hn]
          rfl
        rw [keysAfter] at hkey'
        split at hkey'
        · rename_i heq
          subst heq
          rcases mem_cons.mp hkey' with rfl | hmem
          · obtain ⟨bit, hbit⟩ := Option.ne_none_iff_exists'.mp
              (mt get_eq_none_iff.mp (Nat.not_le.mpr (hin key' n hn)))
            rw [hget, hbit, decide_eq_true hn, Option.map_some, Bool.or_true]
          · exact hold hmem
        · exact hold hkey'
  | clear i =>
      have hle : b.getFilterBytes i + b.filterByteSize ≤ bits.length := by
        rw [hbits]
        exact hroom.1 ▸ hroom.2
      obtain ⟨bits', hzero, hlength, hget⟩ := exists_zero hle
      refine ⟨bits', hzero, hlength.trans hbits, hget, ?_⟩
      intro idx hidx keys hkeys key hkey
      rw [keysAfter] at hkey
      split at hkey
      · exact absurd hkey not_mem_nil
      · rename_i hne
        have hsame : b.couldExist combineHashes bits' idx key
            = b.couldExist combineHashes bits idx key :=
          allSet_congr fun n hn =>
            hget n (h.disjoint hop hidx (Ne.symm hne) (h.mem_bitsOf hn))
        rw [hsame]
        exact hkeys key hkey
  | couldExist i key =>
      dsimp only [Op.idx] at hin
      obtain ⟨answer, hanswer⟩ := Option.ne_none_iff_exists'.mp (allSet_ne_none (hin key))
      refine ⟨bits, ?_, hbits, fun _ _ => rfl, fun idx _ keys hkeys => hkeys⟩
      rw [step, couldExist, hanswer]
      rfl

/-- **Runs**: they end, and the keys that were set since the last clear could exist. -/
theorem exec_spec (h : b.Roomy) {ops : List Op} (hops : ∀ op ∈ ops, op.idx < b.numFilters.toNat)
    (hbits : bits.length = b.getByteSize) {keys : ℕ → List UInt64}
    (hkeys : ∀ idx < b.numFilters.toNat, ∀ key ∈ keys idx,
      b.couldExist combineHashes bits idx key = some true) :
    ∃ bits', Transition.exec (b.step combineHashes) bits ops = some bits' ∧
      bits'.length = b.getByteSize ∧
      ∀ idx < b.numFilters.toNat, ∀ key ∈ ops.foldl (keysAfter idx) (keys idx),
        b.couldExist combineHashes bits' idx key = some true := by
  induction ops generalizing bits keys with
  | nil => exact ⟨bits, rfl, hbits, hkeys⟩
  | cons op ops ih =>
      obtain ⟨mid, hmid, hlength, -, hnext⟩ := h.step_spec hbits (hops op mem_cons_self)
      have hmore : ∀ idx < b.numFilters.toNat, ∀ key ∈ keysAfter idx (keys idx) op,
          b.couldExist combineHashes mid idx key = some true :=
        fun idx hidx => hnext idx hidx _ (hkeys idx hidx)
      obtain ⟨bits', hrun, hlength', hend⟩ :=
        ih (fun op' hop' => hops op' (mem_cons_of_mem _ hop')) hlength hmore
      refine ⟨bits', ?_, hlength', hend⟩
      rw [Transition.exec_cons, hmid, Option.bind_some, hrun]

theorem serves (h : b.Roomy) {empty : Bits} (hempty : empty.length = b.getByteSize) :
    b.Serves combineHashes empty where
  inside idx _ key n hn := h.mem_bitsOf hn
  answers ops hops := by
    have hnone : ∀ idx < b.numFilters.toNat, ∀ key ∈ setSince idx [],
        b.couldExist combineHashes empty idx key = some true :=
      fun idx _ key hkey => absurd hkey not_mem_nil
    obtain ⟨bits, hrun, hbits, hkeys⟩ := h.exec_spec hops hempty hnone
    refine ⟨bits, hrun, hkeys, ?_, fun serialize deserialize hproto =>
      recover_persist hproto hbits hempty⟩
    intro op hop
    obtain ⟨bits', hstep, -, hget, -⟩ := h.step_spec hbits hop
    refine ⟨bits', hstep, ?_⟩
    intro idx hidx hne key
    exact allSet_congr fun n hn => hget n (h.disjoint hop hidx hne (h.mem_bitsOf hn))

end Roomy

/-! ### When the sizes overflow -/

/-- The bits of the tables when all hashes are `r`. -/
theorem mem_bitsFrom_const {r : UInt64} (hr : r.toNat < b.hashTableBitSize.toNat) (idx : ℕ)
    (key : UInt64) {seeds : List UInt64} {firstBit i : ℕ} (hi : i < seeds.length) :
    8 * b.getFilterBytes idx + (firstBit + i * b.hashTableBitSize.toNat + r.toNat) % 2 ^ 64
      ∈ b.bitsFrom (fun _ _ => r) idx key seeds firstBit := by
  induction seeds generalizing firstBit i with
  | nil => exact absurd hi (Nat.not_lt_zero i)
  | cons seed seeds ih =>
      rw [bitsFrom, mem_cons, Nat.mod_eq_of_lt hr]
      cases i with
      | zero =>
          rw [Nat.zero_mul]
          exact Or.inl rfl
      | succ i =>
          have hrec := @ih ((firstBit + b.hashTableBitSize.toNat) % 2 ^ 64) i (Nat.lt_of_succ_lt_succ hi)
          rw [Nat.succ_mul i]
          have heq : (firstBit + (i * b.hashTableBitSize.toNat + b.hashTableBitSize.toNat)
                + r.toNat) % 2 ^ 64
              = ((firstBit + b.hashTableBitSize.toNat) % 2 ^ 64 + i * b.hashTableBitSize.toNat
                + r.toNat) % 2 ^ 64 := by omega
          rw [heq]
          exact Or.inr hrec

theorem lt_of_inside {empty : Bits} (h : ∀ combineHashes, b.Serves combineHashes empty) {idx v : ℕ}
    (hidx : idx < b.numFilters.toNat) (hpos : 0 < b.hashTableBitSize.toNat)
    (hv : v < b.seeds.length * b.hashTableBitSize.toNat) (hlt : v < 2 ^ 64) :
    v / 8 < b.filterByteSize ∧ b.getFilterBytes idx + v / 8 < empty.length := by
  have hr : (UInt64.ofNat (v % b.hashTableBitSize.toNat)).toNat = v % b.hashTableBitSize.toNat :=
    UInt64.toNat_ofNat_of_lt' (Nat.lt_of_le_of_lt (Nat.mod_le _ _) hlt)
  have hrlt : (UInt64.ofNat (v % b.hashTableBitSize.toNat)).toNat < b.hashTableBitSize.toNat := by
    rw [hr]
    exact Nat.mod_lt _ hpos
  have hmem := @mem_bitsFrom_const b _ hrlt idx 0 b.seeds 0 (v / b.hashTableBitSize.toNat)
    (Nat.div_lt_of_lt_mul (Nat.mul_comm _ _ ▸ hv))
  rw [hr, Nat.zero_add, Nat.div_add_mod', Nat.mod_eq_of_lt hlt] at hmem
  have hserves := h fun _ _ => UInt64.ofNat (v % b.hashTableBitSize.toNat)
  have hinside := hserves.inside idx hidx 0 _ hmem
  refine ⟨by omega, ?_⟩
  obtain ⟨bits, hrun, hanswers⟩ := hserves.answers [] nofun
  obtain rfl := Option.some.inj hrun
  obtain ⟨bits', hset, -⟩ := hanswers.apart (.set idx 0) hidx
  have hin := lt_of_setAll hset hmem
  omega

/-- Neither the number of bits of a filter nor the number of bytes of all filters overflows. -/
def SizesFit (numFilters numHashes : UInt32) (hashTableBitSize : UInt64) : Prop :=
  numHashes.toNat * hashTableBitSize.toNat + 7 < 2 ^ 64 ∧
    numFilters.toNat * ((numHashes.toNat * hashTableBitSize.toNat + 7) / 8) < 2 ^ 64

section Make

variable {hashInt : UInt64 → UInt64} {numFilters numHashes : UInt32} {hashTableBitSize : UInt64}
  {empty : Bits}

/-- What the constructor makes of sizes that do not overflow. -/
theorem roomy_of_make (hmake : make hashInt numFilters numHashes hashTableBitSize = some (b, empty))
    (hfit : SizesFit numFilters numHashes hashTableBitSize) :
    b.Roomy ∧ empty.length = b.getByteSize := by
  rw [make] at hmake
  split at hmake
  · cases hmake
  rename_i hne
  obtain ⟨rfl, rfl⟩ := hmake
  obtain ⟨hbits, hbytes⟩ := hfit
  have hpos : hashTableBitSize.toNat ≠ 0 := by
    rw [Ne, ← UInt64.toNat_zero, UInt64.toNat_inj]
    tauto
  have hf : bitsToBytes (numHashes.toNat * hashTableBitSize.toNat % 2 ^ 64)
      = (numHashes.toNat * hashTableBitSize.toNat + 7) / 8 := by
    rw [bitsToBytes]
    omega
  refine ⟨⟨Nat.pos_of_ne_zero hpos, ?_, ?_, hf.symm ▸ hbytes⟩, length_replicate⟩
  · rw [length_map, length_range, hf]
    dsimp only
    omega
  · rw [length_map, length_range]
    exact Nat.lt_of_le_of_lt (Nat.le_add_right _ 7) hbits

/-- **When the filters are right.** For every array that the constructor makes: with all hash
functions, and after all calls, the keys that were set could exist, the filters are apart and in
their bytes, and what is persisted is recovered, exactly if the sizes do not overflow. -/
theorem filters_serve_iff
    (hmake : make hashInt numFilters numHashes hashTableBitSize = some (b, empty)) :
    (∀ combineHashes, b.Serves combineHashes empty) ↔
      SizesFit numFilters numHashes hashTableBitSize := by
  refine ⟨fun hserves => ?_, fun hfit combineHashes => ?_⟩
  rotate_left
  · obtain ⟨hroomy, hlength⟩ := roomy_of_make hmake hfit
    exact hroomy.serves hlength
  rw [make] at hmake
  split at hmake
  · exact nomatch hmake
  rename_i hne
  obtain ⟨rfl, rfl⟩ := hmake
  have hfilters : 0 < numFilters.toNat := by
    rw [Nat.pos_iff_ne_zero, Ne, ← UInt32.toNat_zero, UInt32.toNat_inj]
    tauto
  have hhashes : 0 < numHashes.toNat := by
    rw [Nat.pos_iff_ne_zero, Ne, ← UInt32.toNat_zero, UInt32.toNat_inj]
    tauto
  have hbits : 0 < hashTableBitSize.toNat := by
    rw [Nat.pos_iff_ne_zero, Ne, ← UInt64.toNat_zero, UInt64.toNat_inj]
    tauto
  have hproduct := Nat.mul_pos hhashes hbits
  have hseeds : ((range numHashes.toNat).map fun i => hashInt (UInt64.ofNat i)).length
      = numHashes.toNat := by rw [length_map, length_range]
  generalize hP : numHashes.toNat * hashTableBitSize.toNat = P at hproduct
  have hinside := fun idx v hidx hv hlt => @lt_of_inside _ _ hserves idx v hidx hbits hv hlt
  simp only [hseeds, hP, getByteSize, getFilterBytes, length_replicate] at hinside
  rw [SizesFit, hP]
  -- A table reaches the last bit that a `size_t` can have, which is in no filter.
  have hfit : P + 7 < 2 ^ 64 := by
    by_contra hge
    rcases Nat.lt_or_ge P (2 ^ 64) with hlt | hge'
    · have hzero := (hinside 0 0 hfilters hproduct (by decide)).1
      rw [bitsToBytes] at hzero
      omega
    · have hlast := (hinside 0 (2 ^ 64 - 1) hfilters (by omega) (by decide)).1
      rw [bitsToBytes] at hlast
      omega
  have hf : bitsToBytes (P % 2 ^ 64) = (P + 7) / 8 := by
    rw [bitsToBytes]
    omega
  simp only [hf] at hinside
  refine ⟨hfit, ?_⟩
  by_contra hge
  -- The last bit of the filter in which the array ends is behind it.
  have hlast : (P - 1) / 8 + 1 = (P + 7) / 8 := by omega
  generalize (P + 7) / 8 = f at hinside hge hlast ⊢
  have hmod := Nat.mod_lt (numFilters.toNat * f) (Nat.two_pow_pos 64)
  generalize hlength : numFilters.toNat * f % 2 ^ 64 = length at hinside hmod
  have hidx : length / f < numFilters.toNat := by
    apply Nat.div_lt_of_lt_mul
    rw [Nat.mul_comm]
    omega
  have hle := Nat.div_mul_le_self length f
  have hlt : length < length / f * f + f := Nat.lt_div_mul_add (by omega)
  have hend := (hinside (length / f) (P - 1) hidx (by omega) (by omega)).2
  rw [Nat.mod_eq_of_lt (Nat.lt_of_le_of_lt hle hmod)] at hend
  omega

end Make

theorem filters_serve_iff_small :
    ∃ b empty, make id 3 2 5 = some (b, empty) ∧ ∀ combineHashes, b.Serves combineHashes empty := by
  have hsome : (make id 3 2 5).isSome = true := by decide +kernel
  obtain ⟨⟨b, empty⟩, hmake⟩ := Option.isSome_iff_exists.mp hsome
  exact ⟨b, empty, hmake, (filters_serve_iff hmake).mpr ⟨by decide, by decide⟩⟩

/-- Two tables of `2 ^ 63` bits each: the number of bits is 0 in 64 bits, the array has no bytes, and
the first bit that is set is outside of it. -/
theorem set_outside :
    ∃ b empty, make id 1 2 (2 ^ 63) = some (b, empty) ∧ empty = [] ∧
      b.set (fun _ _ => 0) empty 0 7 = none ∧ ¬ b.Serves (fun _ _ => 0) empty := by
  obtain ⟨⟨b, empty⟩, hb, hfilters, hempty, hset⟩ : ∃ r, make id 1 2 (2 ^ 63) = some r ∧
      r.1.numFilters = 1 ∧ r.2 = [] ∧ r.1.set (fun _ _ => 0) r.2 0 7 = none := by decide +kernel
  refine ⟨b, empty, hb, hempty, hset, ?_⟩
  intro hserves
  have hidx : ∀ op ∈ [Op.set 0 7], op.idx < b.numFilters.toNat := by
    rw [hfilters]
    simp [Op.idx]
  obtain ⟨bits, hrun, -⟩ := hserves.answers [.set 0 7] hidx
  rw [Transition.exec_cons, step, hset] at hrun
  exact nomatch hrun

end BloomBank

end CacheLib
