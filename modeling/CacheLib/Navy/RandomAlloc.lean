/-
`Bucket::getRandomAlloc` (`cachelib/navy/bighash/Bucket.cpp`): the entry at a random offset
of a bucket, as a key and a view of the value.

The key is made from a `const char*` to the key's bytes. A `std::string` made like that ends
at the first zero byte, wherever this is: nothing ends the key in a bucket, and the value
follows it at once.
-/
import CacheLib.Navy.Bucket

set_option autoImplicit false

namespace CacheLib.Navy

open Bytes BucketStorage BucketEntry List Option

namespace Bucket

/-- `std::string{const char*}`, if the `n` bytes from `a` on can be read: the bytes up to the first
zero. `none` is a read behind them. -/
def cString (m : Memory) : ℕ → ℕ → Option (List UInt8)
  | 0, _ => none
  | n + 1, a => if m a = 0 then some [] else (cString m n (a + 1)).map (m a :: ·)

/-- `BufferView`, its pointer as an offset in the storage -/
structure View where
  offset : ℕ
  size : ℕ
  deriving DecidableEq

variable (b : Bucket)

/-- `BucketEntry::value` -/
def valueView (itr : Allocation) : View where
  offset := itr.offset + 16 + (b.entry itr).hashedKey.key.length
  size := (b.entry itr).value.length

/-- The loop of `getRandomAlloc`: the first entry that ends behind the offset. -/
def sampled (randOffset : ℕ) : Option Allocation :=
  b.storage.allocations.find? fun itr => randOffset < itr.offset % 2 ^ 32 + itr.size

/-- `getRandomAlloc`, where `readable` bytes of memory can be read from the start of the storage
on. `none` is a read behind them, `some none` the empty pair. -/
def getRandomAlloc (readable randOffset : ℕ) : Option (Option (List UInt8 × View)) :=
  match b.sampled randOffset with
  | none => some none
  | some itr =>
      let data := itr.offset + 16
      (cString b.storage.data (readable - data) data).map fun key => some (key, b.valueView itr)

/-- A key, and a view which is that of the value of an entry with this key. -/
def Stored (es : List BucketEntry) (key : List UInt8) (view : View) : Prop :=
  ∃ itr ∈ b.storage.allocations, b.entry itr ∈ es ∧ key = (b.entry itr).hashedKey.key ∧
    view = b.valueView itr ∧ read b.storage.data view.offset view.size = (b.entry itr).value

/-- `getRandomAlloc` returns, and what it returns is nothing or stored. -/
def ReturnsStored (es : List BucketEntry) (readable randOffset : ℕ) : Prop :=
  ∃ r, b.getRandomAlloc readable randOffset = some r ∧
    ∀ key view, r = some (key, view) → b.Stored es key view

/-- No byte of the key is zero, and the one behind it is. -/
def KeyEnds (readable : ℕ) (itr : Allocation) : Prop :=
  0 ∉ (b.entry itr).hashedKey.key ∧ (b.valueView itr).offset < readable ∧
    b.storage.data (b.valueView itr).offset = 0

instance (readable : ℕ) (itr : Allocation) : Decidable (b.KeyEnds readable itr) :=
  inferInstanceAs (Decidable (_ ∧ _ ∧ _))

variable {b} {es : List BucketEntry} {offset position : ℕ} {itr : Allocation}

theorem read_succ (m : Memory) (a k : ℕ) : read m a (k + 1) = m a :: read m (a + 1) k := by
  rw [Nat.add_comm, read_add]
  rfl

/-- A string is the `k` bytes it should be if the first zero comes right behind them. -/
theorem cString_eq_read_iff (m : Memory) (n a k : ℕ) :
    cString m n a = some (read m a k) ↔ 0 ∉ read m a k ∧ k < n ∧ m (a + k) = 0 := by
  induction n generalizing a k with
  | zero => simp [cString]
  | succ n ih =>
      rw [cString]
      cases k with
      | zero => by_cases hzero : m a = 0 <;> simp [hzero, Bytes.read]
      | succ k =>
          rw [read_succ, mem_cons]
          by_cases hzero : m a = 0
          · simp [hzero]
          · have hrest := ih (a + 1) k
            rw [show a + 1 + k = a + (k + 1) from by omega] at hrest
            simp only [if_neg hzero, map_eq_some_iff, cons.injEq, true_and,
              exists_eq_right, hrest, Ne.symm hzero, false_or, Nat.add_lt_add_iff_right]

theorem offset_lt_of_mem_places {xs : List (List UInt8)}
    (hmem : itr ∈ places offset position xs) : offset < itr.offset := by
  induction xs generalizing offset position with
  | nil => exact absurd hmem not_mem_nil
  | cons x xs ih =>
      rcases mem_cons.mp hmem with rfl | hrest
      · exact Nat.lt_add_of_pos_right (by decide)
      · have hlt := ih hrest
        omega

/-- Each slot ends before the data of the next one starts. -/
theorem apart_of_mem_places {xs : List (List UInt8)} {itr itr' : Allocation}
    (hmem : itr ∈ places offset position xs) (hmem' : itr' ∈ places offset position xs) :
    itr = itr' ∨ itr.offset + itr.size < itr'.offset ∨ itr'.offset + itr'.size < itr.offset := by
  induction xs generalizing offset position with
  | nil => exact absurd hmem not_mem_nil
  | cons x xs ih =>
      rcases mem_cons.mp hmem with rfl | hrest <;> rcases mem_cons.mp hmem' with rfl | hrest'
      · exact Or.inl rfl
      · exact Or.inr (Or.inl (offset_lt_of_mem_places hrest'))
      · exact Or.inr (Or.inr (offset_lt_of_mem_places hrest))
      · exact ih hrest hrest'

/-- Each entry fills its slot. -/
theorem load_of_mem_places {data : Memory}
    (hcontent : At data offset ((es.map bytes).flatMap slotBytes)) (hlt : used es < 2 ^ 32)
    (hmem : itr ∈ places offset position (es.map bytes)) :
    load data itr.offset ∈ es ∧ itr.size = (load data itr.offset).bytes.length := by
  induction es generalizing offset position with
  | nil => exact absurd hmem not_mem_nil
  | cons e es ih =>
      obtain ⟨hentry, hrest⟩ := at_cons hcontent
      rw [used_cons] at hlt
      rcases mem_cons.mp hmem with rfl | hmem
      · rw [load_of_at hentry (by omega)]
        exact ⟨mem_cons_self, rfl⟩
      · obtain ⟨hload, hsize⟩ := ih hrest (by omega) hmem
        exact ⟨mem_cons_of_mem _ hload, hsize⟩

/-- The view of an entry's value lies in its slot. -/
theorem Holds.valueView_bounds (h : b.Holds es)
    (hmem : itr ∈ b.storage.allocations) :
    itr.offset < (b.valueView itr).offset ∧ (b.valueView itr).offset ≤ itr.offset + itr.size := by
  rw [h.allocations_eq] at hmem
  have hsize : itr.size = (b.entry itr).bytes.length :=
    (load_of_mem_places h.content h.used_lt hmem).2
  rw [length_bytes] at hsize
  have hoffset : (b.valueView itr).offset = itr.offset + 16 + (b.entry itr).hashedKey.key.length := rfl
  omega

/-- So the view tells the entries apart. -/
theorem Holds.eq_of_valueView (h : b.Holds es) {itr itr' : Allocation}
    (hmem : itr ∈ b.storage.allocations) (hmem' : itr' ∈ b.storage.allocations)
    (heq : b.valueView itr = b.valueView itr') : itr = itr' := by
  have hbounds := h.valueView_bounds hmem
  have hbounds' := h.valueView_bounds hmem'
  rw [h.allocations_eq] at hmem hmem'
  rw [heq] at hbounds
  rcases apart_of_mem_places hmem hmem' with rfl | hapart
  · rfl
  · omega

/-- **When the pair is right.** In every bucket, whatever it holds, and for every random offset:
`getRandomAlloc` returns nothing or the key and the value of an entry exactly if the entry at the
offset, should there be one, has a key without zero bytes and with a zero byte behind it. -/
theorem returnsStored_iff (h : b.Holds es) (readable randOffset : ℕ) :
    b.ReturnsStored es readable randOffset ↔
      ∀ itr, b.sampled randOffset = some itr → b.KeyEnds readable itr := by
  rw [ReturnsStored, getRandomAlloc]
  cases hsampled : b.sampled randOffset with
  | none => exact ⟨fun _ => nofun, fun _ => ⟨none, rfl, fun _ _ hnone => nomatch hnone⟩⟩
  | some itr =>
      have hmem : itr ∈ b.storage.allocations := mem_of_find?_eq_some hsampled
      have hkey : (b.entry itr).hashedKey.key
          = read b.storage.data (itr.offset + 16) (b.entry itr).hashedKey.key.length := by
        rw [entry, load]
        simp only [length_read]
      have hstring := cString_eq_read_iff b.storage.data (readable - (itr.offset + 16))
        (itr.offset + 16) (b.entry itr).hashedKey.key.length
      rw [← hkey] at hstring
      have hends : b.KeyEnds readable itr ↔ cString b.storage.data (readable - (itr.offset + 16))
          (itr.offset + 16) = some (b.entry itr).hashedKey.key := by
        have hlt : (b.entry itr).hashedKey.key.length < readable - (itr.offset + 16) ↔
            itr.offset + 16 + (b.entry itr).hashedKey.key.length < readable := by omega
        rw [hstring, hlt]
        rfl
      simp only [some.injEq, forall_eq', hends]
      constructor
      · rintro ⟨r, hreturns, hstored⟩
        obtain ⟨key, hcString, rfl⟩ := map_eq_some_iff.mp hreturns
        obtain ⟨itr', hmem', -, rfl, hview, -⟩ := hstored key _ rfl
        rw [h.eq_of_valueView hmem hmem' hview] at hcString ⊢
        exact hcString
      · intro hcString
        rw [hcString]
        refine ⟨_, rfl, ?_⟩
        rintro _ _ ⟨⟩
        have hin : b.entry itr ∈ es := by
          rw [← h.entries_eq]
          exact mem_map_of_mem hmem
        refine ⟨itr, hmem, hin, rfl, rfl, ?_⟩
        rw [valueView, entry, load]
        simp only [length_read]

/-- The value starts with a zero byte. -/
theorem returnsStored_iff_zeroByte :
    ∃ b es, Transition.exec step (initNew 90 (fun _ => 0) 7) [.insert ⟨[1], 1⟩ [0] none true] = some b ∧
      b.Holds es ∧ b.ReturnsStored es 66 0 := by
  obtain ⟨b, hb, itr, hitr, hends⟩ : ∃ b, Transition.exec step (initNew 90 (fun _ => 0) 7)
        [.insert ⟨[1], 1⟩ [0] none true] = some b ∧
      ∃ itr, b.sampled 0 = some itr ∧ b.KeyEnds 66 itr := by decide +kernel
  obtain ⟨es, hes⟩ := exists_holds_of_run hb
  refine ⟨b, es, hb, hes, (returnsStored_iff hes 66 0).mpr ?_⟩
  intro itr' hitr'
  obtain rfl := some.inj (hitr.symm.trans hitr')
  exact hends

/-- The key is `[1]` and the value `[2]`, but the key that is returned is `[1, 2]`. -/
theorem key_runs_into_value :
    ∃ b es, Transition.exec step (initNew 90 (fun _ => 0) 7) [.insert ⟨[1], 1⟩ [2] none true] = some b ∧
      b.Holds es ∧ es = [⟨⟨[1], 1⟩, [2]⟩] ∧
      (b.getRandomAlloc 66 0).map (·.map Prod.fst) = some (some [1, 2]) ∧
      ¬ b.ReturnsStored es 66 0 := by
  obtain ⟨b, hb, hentries, hreturned⟩ : ∃ b, Transition.exec step (initNew 90 (fun _ => 0) 7)
        [.insert ⟨[1], 1⟩ [2] none true] = some b ∧ b.entries = [⟨⟨[1], 1⟩, [2]⟩] ∧
      (b.getRandomAlloc 66 0).map (·.map Prod.fst) = some (some [1, 2]) := by
    decide +kernel
  obtain ⟨es, hes⟩ := exists_holds_of_run hb
  rw [hes.entries_eq] at hentries
  refine ⟨b, es, hb, hes, hentries, hreturned, ?_⟩
  rintro ⟨r, hr, hstored⟩
  rw [hr, map_some, some.injEq] at hreturned
  obtain ⟨⟨key, view⟩, rfl, rfl⟩ := map_eq_some_iff.mp hreturned
  obtain ⟨itr, -, hin, hkey, -⟩ := hstored _ view rfl
  rw [hentries, mem_singleton] at hin
  rw [hin] at hkey
  exact absurd hkey (by decide)

end Bucket

end CacheLib.Navy
