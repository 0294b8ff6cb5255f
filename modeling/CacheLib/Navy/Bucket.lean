/-
A bucket of `BigHash` (`cachelib/navy/bighash/Bucket.h` and `.cpp`): entries in the slots
of a `BucketStorage`, in the order in which they were inserted.

An insert that does not find enough room first removes all expired entries, and then the
oldest ones until the new one fits. Both loops run through the packed buffer by pointers
and read each entry from it; entries are moved only after the last of these reads.
-/
import CacheLib.Navy.BucketStorage
import CacheLib.Lib.Run

set_option autoImplicit false

namespace CacheLib.Navy

open Bytes BucketStorage List

/-- `HashedKey`. Two are equal if the hashes and the bytes are. -/
structure HashedKey where
  key : List UInt8
  keyHash : UInt64
  deriving DecidableEq, Repr

inductive DestructorEvent
  | recycled
  | removed
  | putFailed
  deriving DecidableEq, Repr

/-- What a `BucketEntry` says. -/
structure BucketEntry where
  hashedKey : HashedKey
  value : List UInt8
  deriving DecidableEq, Repr

namespace BucketEntry

/-- `computeSize`. Sizes are taken and computed as `uint32_t`. -/
def computeSize (keySize valueSize : ℕ) : ℕ :=
  (16 + keySize % 2 ^ 32 + valueSize % 2 ^ 32) % 2 ^ 32

/-- `BucketEntry::create`: the two sizes, the hash, and then key and value, whose bytes are
copied with the sizes they really have. -/
def create (data : Memory) (offset : ℕ) (hk : HashedKey) (value : List UInt8) : Memory :=
  let keySize := hk.key.length % 2 ^ 32
  let valueSize := value.length % 2 ^ 32
  let data := write data offset (toLE 4 keySize ++ toLE 4 valueSize ++ toLE 8 hk.keyHash.toNat)
  let data := write data (offset + 16) hk.key
  write data (offset + 16 + keySize) value

/-- `getIteratorEntry`, with all that can be asked of the entry -/
def load (data : Memory) (offset : ℕ) : BucketEntry :=
  let keySize := ofLE (read data offset 4)
  let valueSize := ofLE (read data (offset + 4) 4)
  { hashedKey :=
      { key := read data (offset + 16) keySize
        keyHash := UInt64.ofNat (ofLE (read data (offset + 8) 8)) }
    value := read data (offset + 16 + keySize) valueSize }

end BucketEntry

/-- A `std::function` of this kind may be empty. -/
abbrev ExpiredCheck := Option (List UInt8 → Bool)

structure Bucket where
  checksum : UInt32 := 0
  generationTime : UInt64
  storage : BucketStorage

namespace Bucket

/-- A call of the destructor callback. -/
abbrev Callback := BucketEntry × DestructorEvent

/-- `sizeof(Bucket)` -/
def headerSize : ℕ := 24

/-- `initNew`, for a view of `size` bytes. Only the header is written. -/
def initNew (size : ℕ) (data : Memory) (generationTime : UInt64) : Bucket where
  generationTime := generationTime
  storage := { capacity := sub32 size headerSize, data := data }

variable (b : Bucket)

/-- `getIteratorEntry` -/
def entry (itr : Allocation) : BucketEntry := BucketEntry.load b.storage.data itr.offset

/-- The entries in the order of an iteration from `getFirst` by `getNext`. -/
def entries : List BucketEntry := b.storage.allocations.map b.entry

def find (hk : HashedKey) : Option (List UInt8) :=
  (b.storage.allocations.find? fun itr => (b.entry itr).hashedKey = hk).map
    fun itr => (b.entry itr).value

/-- The callback is called if there is one. -/
def notify (destructorCb : Bool) (event : DestructorEvent) (itr : Allocation) : List Callback :=
  if destructorCb then [(b.entry itr, event)] else []

/-- `removeExpired`, from the first entry on: the bucket, the number of removed entries, and the
calls of the callback -/
def removeExpired (checkExpired : ExpiredCheck) (destructorCb : Bool) :
    Bucket × ℕ × List Callback :=
  match checkExpired with
  | none => (b, 0, [])
  | some check =>
      let removed := b.storage.allocations.filter fun itr => check (b.entry itr).value
      ({ b with storage := b.storage.remove removed }, removed.length % 2 ^ 32,
        removed.flatMap (b.notify destructorCb .recycled))

/-- The loop of `makeSpace`, over the allocations that are still to come. There has to be one: the
code does not look whether the iteration is at its end. -/
def evictLoop (requiredSize : ℕ) (destructorCb : Bool) :
    List Allocation → ℕ → ℕ → List Callback → Option (Bucket × ℕ × List Callback)
  | [], _, _, _ => none
  | itr :: rest, curFreeSpace, evictions, calls =>
      let evictions := (evictions + 1) % 2 ^ 32
      let calls := calls ++ b.notify destructorCb .recycled itr
      let curFreeSpace := (curFreeSpace + slotSize itr.size) % 2 ^ 32
      if requiredSize ≤ curFreeSpace then
        some ({ b with storage := b.storage.removeUntil itr }, evictions, calls)
      else evictLoop requiredSize destructorCb rest curFreeSpace evictions calls

/-- `makeSpace`: the bucket, the numbers of evicted and of expired entries, and the calls of the
callback -/
def makeSpace (size : ℕ) (checkExpired : ExpiredCheck) (destructorCb : Bool) :
    Option (Bucket × (ℕ × ℕ) × List Callback) :=
  let requiredSize := slotSize size
  if requiredSize ≤ b.storage.remainingCapacity then some (b, (0, 0), [])
  else
    let (b, evictionExpired, calls) := b.removeExpired checkExpired destructorCb
    let curFreeSpace := b.storage.remainingCapacity
    if 0 < evictionExpired ∧ requiredSize ≤ curFreeSpace then
      some (b, (evictionExpired, evictionExpired), calls)
    else
      (b.evictLoop requiredSize destructorCb b.storage.allocations curFreeSpace evictionExpired
        calls).map fun (b, evictions, calls) => (b, (evictions, evictionExpired), calls)

/-- The second half of `insert`: an entry in a new allocation of `size` bytes -/
def addEntry (size : ℕ) (hk : HashedKey) (value : List UInt8) : Option Bucket :=
  match b.storage.allocate size with
  | (_, none) => none
  | (storage, some alloc) =>
      let data := BucketEntry.create storage.data alloc.offset hk value
      some { b with storage := { storage with data := data } }

/-- `insert`. `none` stands for an entry that is read or written outside of the storage. -/
def insert (hk : HashedKey) (value : List UInt8) (checkExpired : ExpiredCheck)
    (destructorCb : Bool) : Option (Bucket × (ℕ × ℕ) × List Callback) :=
  let size := BucketEntry.computeSize hk.key.length value.length
  (b.makeSpace size checkExpired destructorCb).bind fun (b, ret, calls) =>
    (b.addEntry size hk value).map fun b => (b, ret, calls)

/-- `remove`: the bucket, the number of removed entries, and the calls of the callback -/
def remove (hk : HashedKey) (destructorCb : Bool) : Bucket × ℕ × List Callback :=
  match b.storage.allocations.find? fun itr => (b.entry itr).hashedKey = hk with
  | none => (b, 0, [])
  | some itr =>
      ({ b with storage := b.storage.remove [itr] }, 1, b.notify destructorCb .removed itr)

end Bucket

/-! ## Entries as bytes -/

namespace BucketEntry

/-- How an entry is stored. -/
def bytes (e : BucketEntry) : List UInt8 :=
  toLE 4 e.hashedKey.key.length ++ toLE 4 e.value.length ++ toLE 8 e.hashedKey.keyHash.toNat ++
    e.hashedKey.key ++ e.value

/-- The bytes that entries take, with their slots. -/
def used (es : List BucketEntry) : ℕ := ((es.map bytes).flatMap slotBytes).length

@[simp] theorem length_bytes (e : BucketEntry) :
    e.bytes.length = 16 + e.hashedKey.key.length + e.value.length := by
  simp only [bytes, length_append, length_toLE]

theorem used_cons (e : BucketEntry) (es : List BucketEntry) :
    used (e :: es) = 4 + e.bytes.length + used es := by
  rw [used, map_cons, length_flatMap_cons, used]

theorem used_singleton (e : BucketEntry) : used [e] = 4 + e.bytes.length := used_cons e []

theorem used_append (es es' : List BucketEntry) : used (es ++ es') = used es + used es' := by
  rw [used, map_append, flatMap_append, length_append, used, used]

/-- **What is stored is read back.** -/
theorem load_of_at {data : Memory} {offset : ℕ} {e : BucketEntry} (h : At data offset e.bytes)
    (hlt : e.bytes.length < 2 ^ 32) : load data offset = e := by
  rw [length_bytes] at hlt
  simp only [bytes, at_append, length_append, length_toLE] at h
  obtain ⟨⟨⟨⟨hkeySize, hvalueSize⟩, hhash⟩, hkey⟩, hvalue⟩ := h
  have hks : ofLE (read data offset 4) = e.hashedKey.key.length := hkeySize.ofLE_read (by omega)
  have hvs : ofLE (read data (offset + 4) 4) = e.value.length := hvalueSize.ofLE_read (by omega)
  have hkh : ofLE (read data (offset + 8) 8) = e.hashedKey.keyHash.toNat :=
    hhash.ofLE_read e.hashedKey.keyHash.toNat_lt
  have hk : read data (offset + 16) e.hashedKey.key.length = e.hashedKey.key := hkey
  have hv : read data (offset + 16 + e.hashedKey.key.length) e.value.length = e.value := by
    rw [Nat.add_assoc]
    exact hvalue
  simp only [load, hks, hvs, hkh, hk, hv, UInt64.ofNat_toNat]

/-- `create` stores an entry and leaves what is before it. -/
theorem at_create {data : Memory} {offset : ℕ} {hk : HashedKey} {value : List UInt8}
    (hlt : (bytes ⟨hk, value⟩).length < 2 ^ 32) :
    At (create data offset hk value) offset (bytes ⟨hk, value⟩) ∧
      ∀ a bs, At data a bs → a + bs.length ≤ offset → At (create data offset hk value) a bs := by
  rw [length_bytes] at hlt
  dsimp only at hlt
  have hks : hk.key.length % 2 ^ 32 = hk.key.length := Nat.mod_eq_of_lt (by omega)
  have hvs : value.length % 2 ^ 32 = value.length := Nat.mod_eq_of_lt (by omega)
  simp only [create, hks, hvs]
  constructor
  · simp only [bytes, at_append]
    rw [← at_append, ← at_append]
    have hheader := at_write data offset
      (toLE 4 hk.key.length ++ toLE 4 value.length ++ toLE 8 hk.keyHash.toNat)
    refine ⟨⟨?_, ?_⟩, ?_⟩
    · refine (hheader.write_of_disjoint ?_).write_of_disjoint ?_
      · simp only [length_append, length_toLE]
        omega
      · simp only [length_append, length_toLE]
        omega
    · simp only [length_append, length_toLE]
      exact (at_write _ _ _).write_of_disjoint (by omega)
    · simp only [length_append, length_toLE]
      rw [← Nat.add_assoc]
      exact at_write _ _ _
  · intro a bs hbs hle
    refine ((hbs.write_of_disjoint ?_).write_of_disjoint ?_).write_of_disjoint ?_ <;> omega

end BucketEntry

namespace Bucket

open BucketEntry

variable {b : Bucket} {es es' : List BucketEntry} {hk : HashedKey} {value : List UInt8}

/-- The bucket holds the entries `es`, the oldest first. -/
def Holds (b : Bucket) (es : List BucketEntry) : Prop := b.storage.Holds (es.map bytes)

theorem Holds.used_eq (h : b.Holds es) : b.storage.endOffset = used es := h.endOffset_eq

theorem Holds.used_le (h : b.Holds es) : used es ≤ b.storage.capacity :=
  h.used_eq ▸ h.endOffset_le

theorem Holds.length_lt (h : b.Holds es) : es.length < 2 ^ 32 := by
  have hlength := BucketStorage.Holds.length_lt h
  rwa [length_map] at hlength

/-! ## Going through the entries -/

theorem at_cons {data : Memory} {offset : ℕ} {e : BucketEntry} :
    At data offset (((e :: es).map bytes).flatMap slotBytes) →
      At data (offset + 4) e.bytes ∧
      At data (offset + 4 + e.bytes.length) ((es.map bytes).flatMap slotBytes) := by
  rw [map_cons, flatMap_cons, at_append, slotBytes, at_append, length_append,
    length_toLE, ← Nat.add_assoc]
  exact fun h => ⟨h.1.2, h.2⟩

/-- An iteration over stored entries reads them. -/
theorem load_places {data : Memory} (offset position : ℕ)
    (hcontent : At data offset ((es.map bytes).flatMap slotBytes)) (hlt : used es < 2 ^ 32) :
    (places offset position (es.map bytes)).map (fun itr => load data itr.offset) = es := by
  induction es generalizing offset position with
  | nil => rfl
  | cons e es ih =>
      obtain ⟨hentry, hrest⟩ := at_cons hcontent
      rw [used_cons] at hlt
      rw [map_cons, places, map_cons, load_of_at hentry (by omega),
        ih _ _ hrest (by omega)]

/-- What is left after some entries have been removed. -/
theorem kept_entries {data : Memory} (gone : BucketEntry → Bool) (offset position : ℕ)
    (hcontent : At data offset ((es.map bytes).flatMap slotBytes)) (hlt : used es < 2 ^ 32) :
    kept (fun itr => gone (load data itr.offset)) offset position (es.map bytes)
      = (es.filter fun e => !gone e).map bytes := by
  induction es generalizing offset position with
  | nil => rfl
  | cons e es ih =>
      obtain ⟨hentry, hrest⟩ := at_cons hcontent
      rw [used_cons] at hlt
      have hload : load data (offset + 4) = e := load_of_at hentry (by omega)
      have hrec := ih (offset + 4 + e.bytes.length) (position + 1) hrest (by omega)
      rw [map_cons, kept, hrec, hload, filter_cons]
      cases gone e with
      | true => rfl
      | false => rfl

theorem Holds.used_lt (h : b.Holds es) : used es < 2 ^ 32 :=
  Nat.lt_of_le_of_lt h.used_le h.capacity_lt

theorem Holds.entries_eq (h : b.Holds es) : b.entries = es := by
  rw [entries, h.allocations_eq]
  exact load_places 0 0 h.content h.used_lt

/-- A test of the entries found by an iteration is a test of the entries. -/
theorem Holds.find?_map (h : b.Holds es) (p : BucketEntry → Bool) :
    (b.storage.allocations.find? fun itr => p (b.entry itr)).map b.entry = es.find? p := by
  conv_rhs => rw [← h.entries_eq, entries, List.find?_map]
  rfl

theorem Holds.filter_map (h : b.Holds es) (p : BucketEntry → Bool) :
    (b.storage.allocations.filter fun itr => p (b.entry itr)).map b.entry = es.filter p := by
  conv_rhs => rw [← h.entries_eq, entries, List.filter_map]
  rfl

theorem Holds.find_eq (h : b.Holds es) (hk : HashedKey) :
    b.find hk = (es.find? fun e => e.hashedKey = hk).map BucketEntry.value := by
  rw [← h.find?_map, Option.map_map]
  rfl

theorem flatMap_notify (b : Bucket) (destructorCb : Bool) (event : DestructorEvent)
    (itrs : List Allocation) :
    itrs.flatMap (b.notify destructorCb event)
      = if destructorCb then (itrs.map b.entry).map (·, event) else [] := by
  cases destructorCb with
  | true =>
      rw [if_pos rfl, map_map, ← flatMap_pure_eq_map]
      rfl
  | false =>
      rw [if_neg Bool.false_ne_true]
      exact flatMap_eq_nil_iff.mpr fun _ _ => rfl

/-! ## Making room -/

/-- Nothing is expired if nobody can tell. -/
def isExpired (checkExpired : ExpiredCheck) (e : BucketEntry) : Bool :=
  match checkExpired with
  | none => false
  | some check => check e.value

/-- The calls of the callback for a list of entries. -/
def recycle (destructorCb : Bool) (es : List BucketEntry) : List Callback :=
  if destructorCb then es.map (·, .recycled) else []

/-- What no operation on a bucket changes. -/
def SameHeader (b b' : Bucket) : Prop :=
  b'.generationTime = b.generationTime ∧ b'.storage.capacity = b.storage.capacity

theorem recycle_append (destructorCb : Bool) (es es' : List BucketEntry) :
    recycle destructorCb (es ++ es') = recycle destructorCb es ++ recycle destructorCb es' := by
  cases destructorCb with
  | true => exact map_append
  | false => rfl

/-- `removeExpired` removes exactly the expired entries. -/
theorem Holds.removeExpired (h : b.Holds es) (checkExpired : ExpiredCheck) (destructorCb : Bool) :
    ∃ b', b.removeExpired checkExpired destructorCb
        = (b', (es.filter (isExpired checkExpired)).length,
            recycle destructorCb (es.filter (isExpired checkExpired))) ∧
      b'.Holds (es.filter fun e => !isExpired checkExpired e) ∧ SameHeader b b' := by
  cases checkExpired with
  | none =>
      have hnone : es.filter (isExpired none) = [] :=
        filter_eq_nil_iff.mpr fun _ _ => by simp [isExpired]
      have hall : es.filter (fun e => !isExpired none e) = es :=
        filter_eq_self.mpr fun _ _ => rfl
      rw [hnone, hall]
      refine ⟨b, ?_, h, rfl, rfl⟩
      cases destructorCb with
      | true => rfl
      | false => rfl
  | some check =>
      obtain ⟨hholds, hcapacity⟩ :=
        BucketStorage.Holds.remove h fun itr => isExpired (some check) (b.entry itr)
      have hkept : kept (fun itr => isExpired (some check) (b.entry itr)) 0 0 (es.map bytes)
          = (es.filter fun e => !isExpired (some check) e).map bytes :=
        kept_entries (isExpired (some check)) 0 0 h.content h.used_lt
      have hmap := h.filter_map (isExpired (some check))
      have hlength :
          (b.storage.allocations.filter fun itr => isExpired (some check) (b.entry itr)).length
            =(es.filter (isExpired (some check))).length := by rw [← hmap, length_map]
      have hlt : (es.filter (isExpired (some check))).length < 2 ^ 32 :=
        Nat.lt_of_le_of_lt (length_filter_le _ _) h.length_lt
      rw [hkept] at hholds
      refine ⟨{ b with storage := b.storage.remove (b.storage.allocations.filter
        fun itr => isExpired (some check) (b.entry itr)) }, ?_, hholds, rfl, hcapacity⟩
      rw [← Nat.mod_eq_of_lt hlt, ← hlength, recycle, ← hmap, ← flatMap_notify]
      rfl

/-- **The loop of `makeSpace` evicts the shortest prefix that makes enough room.** -/
theorem Holds.evictLoop (xs : List BucketEntry) (h : b.Holds (xs ++ es)) {requiredSize : ℕ}
    (destructorCb : Bool) {curFreeSpace : ℕ} (evictions : ℕ) (calls : List Callback)
    (hcur : curFreeSpace < requiredSize) (henough : requiredSize ≤ curFreeSpace + used es)
    (hlt : curFreeSpace + used es < 2 ^ 32) (hevictions : evictions + es.length < 2 ^ 32) :
    ∃ n b', n ≤ es.length ∧ requiredSize ≤ curFreeSpace + used (es.take n) ∧
      (∀ m < n, curFreeSpace + used (es.take m) < requiredSize) ∧
      b.evictLoop requiredSize destructorCb (places (used xs) xs.length (es.map bytes)) curFreeSpace
          evictions calls
        = some (b', evictions + n, calls ++ recycle destructorCb (es.take n)) ∧
      b'.Holds (es.drop n) ∧ SameHeader b b' := by
  induction es generalizing xs curFreeSpace evictions calls with
  | nil => exact absurd henough (Nat.not_le_of_lt hcur)
  | cons e es ih =>
      have hcontent := h.content
      rw [used_cons] at henough hlt
      rw [length_cons] at hevictions
      rw [map_append, flatMap_append, at_append, Nat.zero_add, map_cons,
        flatMap_cons, at_append, slotBytes, at_append, length_toLE] at hcontent
      have hentry : b.entry ⟨used xs + 4, e.bytes.length, xs.length⟩ = e :=
        load_of_at hcontent.2.1.2 (by omega)
      have hslot : slotSize e.bytes.length = 4 + e.bytes.length := slotSize_of_lt (by omega)
      have hfree : (curFreeSpace + (4 + e.bytes.length)) % 2 ^ 32
          = curFreeSpace + (4 + e.bytes.length) := by omega
      have hcount : (evictions + 1) % 2 ^ 32 = evictions + 1 := by omega
      have hnotify : b.notify destructorCb .recycled ⟨used xs + 4, e.bytes.length, xs.length⟩
          = recycle destructorCb [e] := by
        rw [notify, hentry]
        rfl
      rw [map_cons, places, Bucket.evictLoop]
      simp only [hslot, hfree, hcount, hnotify]
      by_cases hroom : requiredSize ≤ curFreeSpace + (4 + e.bytes.length)
      · -- the last one that has to go
        have hholds : b.storage.Holds (xs.map bytes ++ e.bytes :: es.map bytes) := by
          rw [← map_cons, ← map_append]
          exact h
        have huntil := BucketStorage.Holds.removeUntil hholds
        rw [length_map] at huntil
        let itr : Allocation := ⟨used xs + 4, e.bytes.length, xs.length⟩
        refine ⟨1, { b with storage := b.storage.removeUntil itr }, ?_, ?_, ?_, ?_, huntil.1, rfl,
          huntil.2⟩
        · rw [length_cons]
          omega
        · rw [take_succ_cons, take_zero, used_cons]
          omega
        · intro m hm
          obtain rfl := Nat.lt_one_iff.mp hm
          exact hcur
        · rw [if_pos hroom]
          rfl
      · have hsplit : b.Holds ((xs ++ [e]) ++ es) := by
          rw [append_assoc]
          exact h
        have hused : used (xs ++ [e]) = used xs + 4 + e.bytes.length := by
          rw [used_append, used_singleton, Nat.add_assoc]
        obtain ⟨n, b', hn, hneeded, hminimal, hloop, hrest, hsame⟩ :=
          ih (xs ++ [e]) hsplit (evictions + 1) (calls ++ recycle destructorCb [e])
            (Nat.lt_of_not_le hroom) (by omega) (by omega) (by omega)
        refine ⟨n + 1, b', Nat.succ_le_succ hn, ?_, ?_, ?_, hrest, hsame⟩
        · rw [take_succ_cons, used_cons]
          omega
        · intro m hm
          cases m with
          | zero => exact hcur
          | succ m =>
              have hless := hminimal m (Nat.lt_of_succ_lt_succ hm)
              rw [take_succ_cons, used_cons]
              omega
        · rw [if_neg hroom]
          rw [hused, length_append, length_singleton] at hloop
          rw [hloop, take_succ_cons, append_assoc, ← recycle_append, singleton_append,
            Nat.add_assoc, Nat.add_comm 1 n]

/-- The entries that are removed because they are expired. -/
def expiredBy (checkExpired : ExpiredCheck) (room : Prop) [Decidable room]
    (es : List BucketEntry) : List BucketEntry :=
  if room then [] else es.filter (isExpired checkExpired)

/-- The entries that are not. -/
def unexpiredBy (checkExpired : ExpiredCheck) (room : Prop) [Decidable room]
    (es : List BucketEntry) : List BucketEntry :=
  if room then es else es.filter fun e => !isExpired checkExpired e

theorem Holds.makeSpace (h : b.Holds es) {size : ℕ} (hfits : 4 + size ≤ b.storage.capacity)
    (checkExpired : ExpiredCheck) (destructorCb : Bool) :
    ∃ n b', let room := used es + 4 + size ≤ b.storage.capacity
      let expired := expiredBy checkExpired room es
      let rest := unexpiredBy checkExpired room es
      n ≤ rest.length ∧ used (rest.drop n) + 4 + size ≤ b.storage.capacity ∧
      (∀ m < n, b.storage.capacity < used (rest.drop m) + 4 + size) ∧
      b.makeSpace size checkExpired destructorCb
        = some (b', (expired.length + n, expired.length),
            recycle destructorCb (expired ++ rest.take n)) ∧
      b'.Holds (rest.drop n) ∧ SameHeader b b' := by
  have hcapacity := h.capacity_lt
  have hle := h.used_le
  have hslot : slotSize size = 4 + size := slotSize_of_lt (by omega)
  have hremaining : b.storage.remainingCapacity = b.storage.capacity - used es := by
    rw [BucketStorage.Holds.remainingCapacity_eq h, h.used_eq]
  rw [Bucket.makeSpace, hslot, hremaining]
  by_cases hroom : used es + 4 + size ≤ b.storage.capacity
  · have hfree : 4 + size ≤ b.storage.capacity - used es := by omega
    simp only [expiredBy, unexpiredBy, if_pos hroom, if_pos hfree]
    refine ⟨0, b, Nat.zero_le _, hroom, fun m hm => absurd hm (Nat.not_lt_zero m), ?_, h, rfl, rfl⟩
    cases destructorCb with
    | true => rfl
    | false => rfl
  simp only [expiredBy, unexpiredBy, if_neg hroom,
    if_neg (show ¬ 4 + size ≤ b.storage.capacity - used es by omega)]
  obtain ⟨b₁, hexpired, hholds, hsame⟩ := h.removeExpired checkExpired destructorCb
  generalize hrest : es.filter (fun e => !isExpired checkExpired e) = rest at hholds ⊢
  generalize hgone : es.filter (isExpired checkExpired) = gone at hexpired ⊢
  have hle₁ := hholds.used_le
  have hfree : b₁.storage.remainingCapacity = b.storage.capacity - used rest := by
    rw [BucketStorage.Holds.remainingCapacity_eq hholds, hholds.used_eq, hsame.2]
  simp only [hexpired, hfree]
  rw [hsame.2] at hle₁
  by_cases henough : used rest + 4 + size ≤ b.storage.capacity
  · -- the expired entries were enough, so there were some
    have hpos : 0 < gone.length := by
      by_contra hzero
      have hnil : gone = [] := length_eq_zero_iff.mp (by omega)
      rw [hnil, filter_eq_nil_iff] at hgone
      have hall : rest = es := by
        rw [← hrest, filter_eq_self]
        intro e he
        simpa using hgone e he
      exact hroom (hall ▸ henough)
    rw [if_pos ⟨hpos, by omega⟩]
    refine ⟨0, b₁, Nat.zero_le _, henough, fun m hm => absurd hm (Nat.not_lt_zero m), ?_, hholds, hsame⟩
    rw [take_zero, append_nil, Nat.add_zero]
  · rw [if_neg (fun hboth => henough (by omega)), BucketStorage.Holds.allocations_eq hholds]
    have hsplit : gone.length + rest.length = es.length := by
      rw [← hgone, ← hrest, ← length_append]
      exact (filter_append_perm _ _).length_eq
    have hlength := h.length_lt
    obtain ⟨n, b', hn, hneeded, hminimal, hloop, hholds', hsame'⟩ :=
      Holds.evictLoop [] hholds destructorCb gone.length (recycle destructorCb gone)
        (show b.storage.capacity - used rest < 4 + size by omega) (by omega) (by omega) (by omega)
    have hused : ∀ m, used (rest.take m) + used (rest.drop m) = used rest := fun m => by
      rw [← used_append, take_append_drop]
    refine ⟨n, b', hn, ?_, ?_, ?_, hholds', hsame'.1.trans hsame.1, hsame'.2.trans hsame.2⟩
    · have hsum := hused n
      omega
    · intro m hm
      have hsum := hused m
      have hless := hminimal m hm
      omega
    · rw [length_nil] at hloop
      rw [recycle_append]
      exact congrArg _ hloop

/-! ## Inserting and removing -/

/-- What an insert is to do. `count` says what the first of the two returned numbers is, given how
many entries were removed because they were expired and how many to make room. -/
def InsertsAs (count : ℕ → ℕ → ℕ) (b : Bucket) (hk : HashedKey) (value : List UInt8)
    (checkExpired : ExpiredCheck) (destructorCb : Bool) : Prop :=
  ∃ n b', let new : BucketEntry := ⟨hk, value⟩
    let room := used (b.entries ++ [new]) ≤ b.storage.capacity
    let expired := expiredBy checkExpired room b.entries
    let rest := unexpiredBy checkExpired room b.entries
    -- `n` is the least number of entries that have to go
    n ≤ rest.length ∧ used (rest.drop n ++ [new]) ≤ b.storage.capacity ∧
    (∀ m < n, b.storage.capacity < used (rest.drop m ++ [new])) ∧
    b.insert hk value checkExpired destructorCb
      = some (b', (count expired.length n, expired.length),
          recycle destructorCb (expired ++ rest.take n)) ∧
    b'.entries = rest.drop n ++ [new]

theorem computeSize_of_lt (h : (bytes ⟨hk, value⟩).length < 2 ^ 32) :
    computeSize hk.key.length value.length = (bytes ⟨hk, value⟩).length := by
  rw [length_bytes] at h ⊢
  dsimp only at h ⊢
  unfold computeSize
  omega

/-- The entry is written behind the others. -/
theorem Holds.addEntry (h : b.Holds es)
    (hfits : used es + 4 + (bytes ⟨hk, value⟩).length ≤ b.storage.capacity) :
    ∃ b', b.addEntry (bytes ⟨hk, value⟩).length hk value = some b' ∧
      b'.Holds (es ++ [⟨hk, value⟩]) ∧ SameHeader b b' := by
  have hlt : (bytes ⟨hk, value⟩).length < 2 ^ 32 := by
    have hcapacity := h.capacity_lt
    omega
  rw [← h.used_eq] at hfits
  let size := toLE 4 (bytes ⟨hk, value⟩).length
  let data := BucketEntry.create (write b.storage.data b.storage.endOffset size)
    (b.storage.endOffset + 4) hk value
  obtain ⟨hentry, hframe⟩ : At data _ _ ∧ _ := at_create hlt
  have hlength : size.length = 4 := length_toLE _ _
  -- what is in front of the new slot, and the size in it, were written before
  have hold : At data 0 ((es.map bytes).flatMap slotBytes) := by
    refine hframe _ _ (h.content.write_of_disjoint ?_) ?_
    · rw [← h.endOffset_eq]
      omega
    · rw [← h.endOffset_eq]
      omega
  have hslot : At data b.storage.endOffset (slotBytes (bytes ⟨hk, value⟩)) := by
    rw [slotBytes, at_append, length_toLE]
    exact ⟨hframe _ _ (at_write _ _ _) (Nat.le_of_eq (congrArg _ hlength)), hentry⟩
  have hholds := BucketStorage.Holds.push h hfits hold hslot
  rw [← map_singleton, ← map_append] at hholds
  refine ⟨⟨b.checksum, b.generationTime, _⟩, ?_, hholds, rfl, rfl⟩
  rw [Bucket.addEntry, BucketStorage.Holds.allocate_eq h hfits]

/-- The entry is written behind those that are left. -/
theorem Holds.insert (h : b.Holds es) (hfits : used [⟨hk, value⟩] ≤ b.storage.capacity)
    (checkExpired : ExpiredCheck) (destructorCb : Bool) :
    ∃ n b', let room := used (es ++ [⟨hk, value⟩]) ≤ b.storage.capacity
      let expired := expiredBy checkExpired room es
      let rest := unexpiredBy checkExpired room es
      n ≤ rest.length ∧ used (rest.drop n ++ [⟨hk, value⟩]) ≤ b.storage.capacity ∧
      (∀ m < n, b.storage.capacity < used (rest.drop m ++ [⟨hk, value⟩])) ∧
      b.insert hk value checkExpired destructorCb
        = some (b', (expired.length + n, expired.length),
            recycle destructorCb (expired ++ rest.take n)) ∧
      b'.Holds (rest.drop n ++ [⟨hk, value⟩]) ∧ SameHeader b b' := by
  have hcapacity := h.capacity_lt
  have hused : ∀ es', used (es' ++ [⟨hk, value⟩]) = used es' + 4 + (bytes ⟨hk, value⟩).length :=
    fun es' => by rw [used_append, used_singleton, Nat.add_assoc]
  rw [used_singleton] at hfits
  have hlt : (bytes ⟨hk, value⟩).length < 2 ^ 32 := by omega
  simp only [hused, Bucket.insert, computeSize_of_lt hlt]
  obtain ⟨n, b₁, hn, hroom, hminimal, hspace, hholds, hsame⟩ :=
    h.makeSpace hfits checkExpired destructorCb
  obtain ⟨b', hadd, hholds', hsame'⟩ :=
    hholds.addEntry (Nat.le_trans hroom (Nat.le_of_eq hsame.2.symm))
  refine ⟨n, b', hn, hroom, hminimal, ?_, hholds', hsame'.1.trans hsame.1, hsame'.2.trans hsame.2⟩
  rw [hspace, Option.bind_some, hadd, Option.map_some]

/-- `remove` without an entry for the key -/
theorem Holds.remove_of_not_mem (h : b.Holds es) (hnone : ∀ e ∈ es, e.hashedKey ≠ hk)
    (destructorCb : Bool) : b.remove hk destructorCb = (b, 0, []) := by
  have hfind : es.find? (fun e => e.hashedKey = hk) = none :=
    find?_eq_none.mpr fun e he => by simpa using hnone e he
  rw [← h.find?_map, Option.map_eq_none_iff] at hfind
  rw [Bucket.remove, hfind]

/-- `remove` takes the first entry for the key out. -/
theorem Holds.remove_of_mem {e : BucketEntry} (h : b.Holds (es ++ e :: es'))
    (hbefore : ∀ e' ∈ es, e'.hashedKey ≠ hk) (hkey : e.hashedKey = hk) (destructorCb : Bool) :
    ∃ b', b.remove hk destructorCb = (b', 1, if destructorCb then [(e, .removed)] else []) ∧
      b'.Holds (es ++ es') ∧ SameHeader b b' := by
  have hlt := h.used_lt
  have hcontent := h.content
  rw [used_append, used_cons] at hlt
  rw [map_append, flatMap_append, at_append, Nat.zero_add, map_cons,
    flatMap_cons, at_append, slotBytes, at_append, length_toLE] at hcontent
  let itr : Allocation := ⟨used es + 4, e.bytes.length, es.length⟩
  have hentry : b.entry itr = e := load_of_at hcontent.2.1.2 (by omega)
  have hfront : (places 0 0 (es.map bytes)).map b.entry = es :=
    load_places 0 0 hcontent.1 (by omega)
  have hfind : (b.storage.allocations.find? fun itr => (b.entry itr).hashedKey = hk) = some itr := by
    rw [BucketStorage.Holds.allocations_eq h, map_append, map_cons, places_append, places,
      find?_append, Nat.zero_add, Nat.zero_add, length_map, find?_cons_of_pos]
    · have hnone :
          (places 0 0 (es.map bytes)).find? (fun itr => (b.entry itr).hashedKey = hk) = none := by
        rw [find?_eq_none]
        intro a ha
        simpa using hbefore (b.entry a) (hfront ▸ mem_map_of_mem ha)
      rw [hnone]
      rfl
    · exact decide_eq_true (hentry.symm ▸ hkey)
  have hholds : b.storage.Holds (es.map bytes ++ e.bytes :: es'.map bytes) := by
    rw [← map_cons, ← map_append]
    exact h
  have hremove := hholds.remove_one
  rw [length_map, ← map_append] at hremove
  change (b.storage.remove [itr]).Holds _ ∧ (b.storage.remove [itr]).capacity = _ at hremove
  refine ⟨{ b with storage := b.storage.remove [itr] }, ?_, hremove.1, rfl, hremove.2⟩
  simp only [Bucket.remove, hfind, notify, hentry]

/-! ## Runs -/

/-- A call that changes a bucket. -/
inductive Op
  | insert (hk : HashedKey) (value : List UInt8) (checkExpired : ExpiredCheck) (destructorCb : Bool)
  | remove (hk : HashedKey) (destructorCb : Bool)

/-- An insert demands that the entry fits in an empty bucket. -/
def step (b : Bucket) : Op → Option Bucket
  | .insert hk value checkExpired destructorCb =>
      if used [⟨hk, value⟩] ≤ b.storage.capacity then
        (b.insert hk value checkExpired destructorCb).map Prod.fst
      else none
  | .remove hk destructorCb => some (b.remove hk destructorCb).1

theorem holds_initNew (size : ℕ) (data : Memory) (generationTime : UInt64) :
    (initNew size data generationTime).Holds [] where
  content := at_nil
  endOffset_eq := rfl
  numAllocations_eq := rfl
  endOffset_le := Nat.zero_le _
  capacity_lt := Nat.mod_lt _ (by decide)

theorem Holds.step (h : b.Holds es) {op : Op} {b' : Bucket} (hstep : b.step op = some b') :
    ∃ es', b'.Holds es' := by
  cases op with
  | insert hk value checkExpired destructorCb =>
      simp only [Bucket.step, Option.ite_none_right_eq_some, Option.map_eq_some_iff] at hstep
      obtain ⟨hfits, r, hinsert, rfl⟩ := hstep
      obtain ⟨n, b', -, -, -, hinsert', hholds, -⟩ := h.insert hfits checkExpired destructorCb
      obtain rfl := Option.some.inj (hinsert.symm.trans hinsert')
      exact ⟨_, hholds⟩
  | remove hk destructorCb =>
      obtain rfl := Option.some.inj hstep
      by_cases hnone : ∀ e ∈ es, e.hashedKey ≠ hk
      · rw [h.remove_of_not_mem hnone]
        exact ⟨es, h⟩
      · obtain ⟨e, hmem, hkey⟩ : ∃ e ∈ es, e.hashedKey = hk := by
          simpa using hnone
        obtain ⟨e, pre, post, hbefore, hkey, rfl, -⟩ :=
          exists_of_eraseP (p := fun e => decide (e.hashedKey = hk)) hmem (decide_eq_true hkey)
        obtain ⟨b', hremove, hholds, -⟩ := h.remove_of_mem
          (fun e' he' => by simpa using hbefore e' he') (of_decide_eq_true hkey) destructorCb
        rw [hremove]
        exact ⟨_, hholds⟩

theorem exists_holds_of_run {size : ℕ} {data : Memory} {generationTime : UInt64} {ops : List Op}
    (hrun : Transition.exec step (initNew size data generationTime) ops = some b) :
    ∃ es, b.Holds es := by
  have hstep : ∀ b op b', (∃ es, Holds b es) → step b op = some b' → ∃ es, b'.Holds es :=
    fun b op b' ⟨es, hes⟩ h => hes.step h
  exact Transition.exec_invariant hstep hrun ⟨[], holds_initNew _ _ _⟩

/-- **An insert keeps all it can.** In every bucket that inserts and removes can make, and for every
entry that fits in an empty one: if there was not enough room the expired entries go, and then as few
of the oldest ones as have to. Of the two numbers the first counts all entries that went, the second
the expired ones. -/
theorem insert_keeps_all_it_can {size : ℕ} {data : Memory} {generationTime : UInt64} {ops : List Op}
    (hrun : Transition.exec step (initNew size data generationTime) ops = some b)
    (hfits : used [⟨hk, value⟩] ≤ b.storage.capacity) (checkExpired : ExpiredCheck)
    (destructorCb : Bool) : InsertsAs (· + ·) b hk value checkExpired destructorCb := by
  obtain ⟨es, hes⟩ := exists_holds_of_run hrun
  obtain ⟨n, b', hn, hroom, hminimal, hinsert, hholds, -⟩ :=
    hes.insert hfits checkExpired destructorCb
  refine ⟨n, b', ?_⟩
  rw [hes.entries_eq]
  exact ⟨hn, hroom, hminimal, hinsert, hholds.entries_eq⟩

/-- Three entries of 22 bytes each, in a bucket that has just this room. -/
def threeEntries : List Op :=
  [.insert ⟨[1], 1⟩ [0] none true, .insert ⟨[2], 2⟩ [1] none true, .insert ⟨[3], 3⟩ [2] none true]

/-- The values that are expired in the examples. -/
def isZero (value : List UInt8) : Bool := value == [0]

theorem insert_keeps_all_it_can_threeEntries :
    ∃ b, Transition.exec step (initNew 90 (fun _ => 0) 7) threeEntries = some b ∧
      b.entries = [⟨⟨[1], 1⟩, [0]⟩, ⟨⟨[2], 2⟩, [1]⟩, ⟨⟨[3], 3⟩, [2]⟩] ∧
      InsertsAs (· + ·) b ⟨[4], 4⟩ (replicate 23 9) (some isZero) true := by
  obtain ⟨b, hb, hcapacity, hentries⟩ :
      ∃ b, Transition.exec step (initNew 90 (fun _ => 0) 7) threeEntries = some b ∧
        used [⟨⟨[4], 4⟩, replicate 23 9⟩] ≤ b.storage.capacity ∧
        b.entries = [⟨⟨[1], 1⟩, [0]⟩, ⟨⟨[2], 2⟩, [1]⟩, ⟨⟨[3], 3⟩, [2]⟩] := by decide +kernel
  exact ⟨b, hb, hentries, insert_keeps_all_it_can hb hcapacity (some isZero) true⟩

/-- One of the three is expired, and one more has to go: the numbers are two and one, not one and
one. -/
theorem evicted_counts_expired :
    ∃ b, Transition.exec step (initNew 90 (fun _ => 0) 7) threeEntries = some b ∧
      used [⟨⟨[4], 4⟩, replicate 23 9⟩] ≤ b.storage.capacity ∧
      (b.insert ⟨[4], 4⟩ (replicate 23 9) (some isZero) true).map (fun r => r.2.1)
        = some (2, 1) ∧
      ¬ InsertsAs (fun _ n => n) b ⟨[4], 4⟩ (replicate 23 9) (some isZero) true := by
  obtain ⟨b, hb, hcapacity, hentries, hcounts⟩ :
      ∃ b, Transition.exec step (initNew 90 (fun _ => 0) 7) threeEntries = some b ∧
        b.storage.capacity = 66 ∧ b.entries = [⟨⟨[1], 1⟩, [0]⟩, ⟨⟨[2], 2⟩, [1]⟩, ⟨⟨[3], 3⟩, [2]⟩] ∧
        (b.insert ⟨[4], 4⟩ (replicate 23 9) (some isZero) true).map (fun r => r.2.1)
          = some (2, 1) := by
    decide +kernel
  refine ⟨b, hb, by rw [hcapacity]; decide, hcounts, ?_⟩
  rintro ⟨n, b', -, -, hminimal, hinsert, -⟩
  rw [hinsert, Option.map_some, Option.some.injEq] at hcounts
  obtain rfl : n = 2 := (Prod.mk.inj hcounts).1
  have hone := hminimal 1 (by decide)
  rw [hcapacity, hentries] at hone
  exact absurd hone (by decide)

end Bucket

end CacheLib.Navy
