/-
`insertIfNotExists` of a `FixedSizeIndex`, with and without overflow handling.

A key that is there is to be left alone and its record returned; a key that is not is to
be inserted. The call looks at the record in the bucket that `decideBucketSlotOffset`
returns. That bucket need not be one for the key: if all slots are taken and nothing can
be moved, it is the home bucket with the entry that is to be replaced, and the call then
reports this entry as the one of the key and inserts nothing.
-/
import CacheLib.Lib.Run
import CacheLib.Navy.IndexTable
import Mathlib.Data.Fintype.Pi

set_option autoImplicit false

namespace CacheLib.Navy.FixedSizeIndex

open Transition Function Option

variable {cfg : Config} {s s' : State} {retrieveKey : UInt32 → Option UInt64} {key : UInt64}

/-! ## What the call is for -/

/-- The key has to go to a block, and the block is full. -/
def GoesToFullBlock (cfg : Config) (s : State) (retrieveKey : UInt32 → Option UInt64)
    (key : UInt64) : Prop :=
  let p := decideBucketSlotOffset cfg s retrieveKey (cfg.bucketId key) key
  let c := cfg.calcSlotBucketId (cfg.bucketId key) p.2
  (p.1.ht c).isCombinedEntry = true ∧
    ∃ block, p.1.combinedEntries (cfg.shardId (cfg.bucketId key)) c = some block ∧
      block.find key = none ∧ block.isFull = true

/-- A bucket that is a block is in use and has one, and there is one only with overflow
handling. -/
structure State.BlocksSound (cfg : Config) (s : State) : Prop where
  valid : ∀ c, (s.ht c).isCombinedEntry = true → (s.ht c).isValid = true
  block : ∀ c, (s.ht c).isCombinedEntry = true → (s.combinedEntries (cfg.shardId c) c).isSome = true
  overflow : ∀ c, (s.ht c).isCombinedEntry = true → cfg.handleOverflow = true

namespace State.BlocksSound

variable (h : s.BlocksSound cfg)

include h

theorem setRecord (c : UInt64) {r : PackedItemRecord}
    (hr : r.isCombinedEntry = true → (s.ht c).isCombinedEntry = true ∧ r.isValid = true) :
    (s.setRecord c r).BlocksSound cfg := by
  -- a bucket that is a block now was one before
  have hold : ∀ b, ((s.setRecord c r).ht b).isCombinedEntry = true →
      (s.ht b).isCombinedEntry = true := by
    intro b hb
    rw [setRecord_ht] at hb
    split at hb
    · rename_i heq
      exact heq ▸ (hr hb).1
    · exact hb
  refine ⟨?_, fun b hb => h.block b (hold b hb), fun b hb => h.overflow b (hold b hb)⟩
  intro b hb
  have hb' := hold b hb
  rw [setRecord_ht] at hb ⊢
  split
  · rename_i heq
    rw [if_pos heq] at hb
    exact (hr hb).2
  · exact h.valid b hb'

theorem setPlain (c : UInt64) {r : PackedItemRecord}
    (hr : r.isCombinedEntry = false) : (s.setRecord c r).BlocksSound cfg :=
  h.setRecord c fun hr' => absurd hr' (by simp [hr])

theorem setBlock (sid c : UInt64) (block : CombinedEntryBlock) :
    (s.setBlock sid c block).BlocksSound cfg := by
  refine ⟨h.valid, ?_, h.overflow⟩
  intro b hb
  have hblock := h.block b hb
  simp only [State.setBlock, update_apply]
  split
  · rename_i hsid
    simp only [update_apply]
    split
    · rfl
    · exact hsid ▸ hblock
  · exact hblock

theorem create (hoverflow : cfg.handleOverflow = true) (c : UInt64)
    (block : CombinedEntryBlock) (r : PackedItemRecord) :
    ((s.setBlock (cfg.shardId c) c block).setRecord c r.setCombinedEntry).BlocksSound cfg := by
  have hset := h.setBlock (cfg.shardId c) c block
  refine ⟨?_, ?_, fun _ _ => hoverflow⟩
  · intro b hb
    rw [setRecord_ht] at hb ⊢
    split
    · rfl
    · rename_i hne
      rw [if_neg hne] at hb
      exact hset.valid b hb
  · intro b hb
    by_cases heq : b = c
    · subst heq
      simp [State.setRecord, State.setBlock]
    · rw [setRecord_ht, if_neg heq] at hb
      exact hset.block b hb

theorem moveEntry {c d : UInt64} (sub : Fin 4)
    (hc : (s.ht c).isCombinedEntry = false) : (s.moveEntry c d sub).BlocksSound cfg := by
  have hmoved := (h.setPlain d hc).setPlain c (r := {}) rfl
  exact ⟨hmoved.valid, hmoved.block, hmoved.overflow⟩

theorem updateRecord (lb : LockedBucket) {r : PackedItemRecord}
    (hr : r.isCombinedEntry = false) : (lb.updateRecord s r).BlocksSound cfg := by
  unfold LockedBucket.updateRecord
  split
  · exact h
  · rename_i i bid _
    split
    · have hset := h.setPlain bid hr
      exact ⟨hset.valid, hset.block, hset.overflow⟩
    · unfold LockedBucket.insertCombinedIndexEntry
      split
      · exact h
      · exact h.setBlock _ _ _

theorem updateNewAddress (lb : LockedBucket) (newAddress : UInt32) :
    (lb.updateNewAddress s newAddress).1.BlocksSound cfg := by
  unfold LockedBucket.updateNewAddress
  split
  · exact h
  · split
    · rename_i bid _ hplain
      have hplain' : (s.ht bid).isCombinedEntry = false := by simpa using hplain
      exact h.setPlain bid hplain'
    · unfold LockedBucket.insertCombinedIndexEntry
      split
      · exact h
      · exact h.setBlock _ _ _

theorem removeRecord (lb : LockedBucket) :
    (lb.removeRecord s).BlocksSound cfg := by
  unfold LockedBucket.removeRecord
  split
  · exact h
  · split
    · exact h.setPlain _ rfl
    · split
      · exact h
      · exact h.setBlock _ _ _

theorem countValid (lb : LockedBucket) (change : UInt64 → UInt64) :
    (lb.countValid s change).BlocksSound cfg :=
  ⟨h.valid, h.block, h.overflow⟩

theorem bumpCurRecordHits (lb : LockedBucket) :
    (lb.bumpCurRecordHits s).BlocksSound cfg := by
  unfold LockedBucket.bumpCurRecordHits
  split
  · exact h
  · exact h.setRecord _ fun hr => ⟨hr, h.valid _ hr⟩

end State.BlocksSound

theorem calcSlotBucketId_zero (haccepted : cfg.Accepted) {bid : UInt64}
    (hbid : bid < cfg.totalBuckets) : cfg.calcSlotBucketId bid 0 = bid := by
  have hzero : (kNextSlotOffset 0).toNat = 0 := rfl
  rw [← UInt64.toNat_inj, haccepted.toNat_calcSlotBucketId hbid, hzero, Nat.add_zero, Nat.mod_mod,
    Nat.div_add_mod']

theorem EmptySlot.blocksSound (h : s.BlocksSound cfg) {bid : UInt64} {i : Fin 4}
    (hempty : EmptySlot cfg s bid s' i) : s'.BlocksSound cfg := by
  cases hempty with
  | free _ _ => exact h
  | moved _ sub c _ _ hcombined _ _ _ => exact h.moveEntry sub hcombined

/-- Making room keeps the blocks sound. -/
theorem blocksSound_of_decided (haccepted : cfg.Accepted) (h : s.BlocksSound cfg) {i : Fin 4}
    (hdecided : Decided cfg s retrieveKey (cfg.bucketId key) key s' i) : s'.BlocksSound cfg := by
  cases hdecided with
  | existing _ _ => exact h
  | room _ _ _ hroom => exact (findOrMakeEmptySlot_some hroom).1.blocksSound h
  | combined _ _ _ _ _ => exact h
  | created key' c hc _ _ hoverflow _ _ =>
      have hbid := haccepted.bucketId_lt key
      rw [calcSlotBucketId_zero haccepted hbid] at hc
      subst hc
      exact h.create hoverflow _ _ _
  | replaced _ _ _ => exact h

theorem blocksSound_lockForInsert (haccepted : cfg.Accepted) (h : s.BlocksSound cfg)
    (retrieveKey : UInt32 → Option UInt64) (key : UInt64) :
    (lockForInsert cfg s retrieveKey key).1.BlocksSound cfg :=
  blocksSound_of_decided haccepted h (decided cfg s retrieveKey (cfg.bucketId key) key)

theorem blocksSound_step (haccepted : cfg.Accepted) (h : s.BlocksSound cfg) {c : Call}
    (hstep : step cfg s c = some s') : s'.BlocksSound cfg := by
  obtain ⟨op, retrieveKey, reply⟩ := c
  simp only [step, ite_none_right_eq_some, some.injEq] at hstep
  obtain ⟨-, rfl⟩ := hstep
  cases op with
  | lookup key =>
      simp only [perform, Prod.map, lookup, id]
      split
      · exact h.bumpCurRecordHits _
      · exact h
  | insert key address sizeHint =>
      have hlock := blocksSound_lockForInsert haccepted h retrieveKey key
      have hmake := PackedItemRecord.make_isCombinedEntry address sizeHint 0
      simp only [perform, Prod.map, insert, id]
      split
      · exact hlock.updateRecord (lockForInsert cfg s retrieveKey key).2 hmake
      · exact (hlock.countValid (lockForInsert cfg s retrieveKey key).2 (· + 1)).updateRecord
          (lockForInsert cfg s retrieveKey key).2 hmake
  | insertIfNotExists key address sizeHint =>
      have hlock := blocksSound_lockForInsert haccepted h retrieveKey key
      have hmake := PackedItemRecord.make_isCombinedEntry address sizeHint 0
      simp only [perform, Prod.map, insertIfNotExists, id]
      split
      · exact hlock
      · exact (hlock.countValid (lockForInsert cfg s retrieveKey key).2 (· + 1)).updateRecord
          (lockForInsert cfg s retrieveKey key).2 hmake
  | replaceIfMatch key newAddress oldAddress =>
      simp only [perform, Prod.map, replaceIfMatch, id]
      split
      · exact h.updateNewAddress _ _
      · exact h
  | remove key =>
      simp only [perform, Prod.map, remove, id]
      split
      · exact (h.countValid _ _).removeRecord _
      · exact h.removeRecord _
  | removeIfMatch key address =>
      simp only [perform, Prod.map, removeIfMatch, id]
      split
      · exact (h.removeRecord (lockExisting cfg s key)).countValid (lockExisting cfg s key) (· - 1)
      · exact h

theorem blocksSound_empty (cfg : Config) : State.BlocksSound cfg {} where
  valid _ hc := absurd hc Bool.false_ne_true
  block _ hc := absurd hc Bool.false_ne_true
  overflow _ hc := absurd hc Bool.false_ne_true

/-- A slot is a block that has the key. -/
def liveAt (cfg : Config) (s : State) (key : UInt64) (i : Fin 4) : Bool :=
  let c := cfg.calcSlotBucketId (cfg.bucketId key) i
  (s.ht c).isCombinedEntry &&
    (s.combinedEntries (cfg.shardId (cfg.bucketId key)) c).any fun block => block.peekIndexEntry key

theorem liveAt_eq_true_iff {i : Fin 4} :
    liveAt cfg s key i = true ↔
      (s.ht (cfg.calcSlotBucketId (cfg.bucketId key) i)).isCombinedEntry = true ∧
      ∃ block, s.combinedEntries (cfg.shardId (cfg.bucketId key))
          (cfg.calcSlotBucketId (cfg.bucketId key) i) = some block ∧
        block.peekIndexEntry key = true := by
  rw [liveAt, Bool.and_eq_true, any_eq_true]

theorem find_slotOffsets {p : Fin 4 → Bool} {i : Fin 4} :
    slotOffsets.find? p = some i ↔ p i = true ∧ ∀ j < i, p j = false := by
  have hall : ∀ (p : Fin 4 → Bool) (i : Fin 4),
      slotOffsets.find? p = some i ↔ p i = true ∧ ∀ j < i, p j = false := by decide
  exact hall p i

theorem find_slotOffsets_none {p : Fin 4 → Bool} :
    slotOffsets.find? p = none ↔ ∀ i, p i = false := by
  have hall : ∀ p : Fin 4 → Bool, slotOffsets.find? p = none ↔ ∀ i, p i = false := by decide
  exact hall p

theorem checkCombinedIndexEntry_eq (haccepted : cfg.Accepted) (s : State) (key : UInt64) :
    checkCombinedIndexEntry cfg s (cfg.bucketId key) key = slotOffsets.find? (liveAt cfg s key) := by
  have hbid := haccepted.bucketId_lt key
  unfold checkCombinedIndexEntry
  rw [haccepted.shardId_calcSlotBucketId hbid]
  rfl

theorem check_eq_some_iff (haccepted : cfg.Accepted) {i : Fin 4} :
    checkBucketSlotOffset cfg s (cfg.bucketId key) key = some i ↔
      (cfg.handleOverflow = true ∧ liveAt cfg s key i = true ∧ ∀ j < i, liveAt cfg s key j = false) ∨
      ((cfg.handleOverflow = true → ∀ j, liveAt cfg s key j = false) ∧
        matchesSlot cfg s (cfg.bucketId key) key i = true ∧
        ∀ j < i, matchesSlot cfg s (cfg.bucketId key) key j = false) := by
  rw [checkBucketSlotOffset, checkCombinedIndexEntry_eq haccepted]
  by_cases hoverflow : cfg.handleOverflow = true
  · simp only [hoverflow, if_true, true_and, forall_const]
    rcases hlive : slotOffsets.find? (liveAt cfg s key) with _ | j
    · have hnone := find_slotOffsets_none.mp hlive
      simp only [hnone, Bool.false_eq_true, false_and, false_or, implies_true, true_and]
      exact find_slotOffsets
    · obtain ⟨hj, -⟩ := find_slotOffsets.mp hlive
      rw [← find_slotOffsets, hlive]
      refine ⟨Or.inl, ?_⟩
      rintro (h | ⟨hnone, -⟩)
      · exact h
      · exact absurd hj (by simp [hnone j])
  · simp only [hoverflow, Bool.false_eq_true, if_false, false_and, false_or, false_implies, true_and]
    exact find_slotOffsets

theorem check_eq_none_iff (haccepted : cfg.Accepted) :
    checkBucketSlotOffset cfg s (cfg.bucketId key) key = none ↔
      (cfg.handleOverflow = true → ∀ j, liveAt cfg s key j = false) ∧
        ∀ j, matchesSlot cfg s (cfg.bucketId key) key j = false := by
  rw [checkBucketSlotOffset, checkCombinedIndexEntry_eq haccepted]
  by_cases hoverflow : cfg.handleOverflow = true
  · simp only [hoverflow, if_true, forall_const]
    rcases hlive : slotOffsets.find? (liveAt cfg s key) with _ | j
    · simp only [find_slotOffsets_none.mp hlive, implies_true, true_and]
      exact find_slotOffsets_none
    · obtain ⟨hj, -⟩ := find_slotOffsets.mp hlive
      refine ⟨fun h => absurd h (by simp), ?_⟩
      rintro ⟨hnone, -⟩
      exact absurd hj (by simp [hnone j])
  · simp only [hoverflow, Bool.false_eq_true, if_false, false_implies, true_and]
    exact find_slotOffsets_none

theorem peek_of_check_none (h : checkBucketSlotOffset cfg s (cfg.bucketId key) key = none) :
    peek cfg s key = none := by
  simp [peek, lockExisting, lockedBucket, h, PackedItemRecord.isValid]

theorem peek_of_check_some {i : Fin 4}
    (h : checkBucketSlotOffset cfg s (cfg.bucketId key) key = some i) :
    peek cfg s key
      = let r := recordAt s (cfg.shardId (cfg.bucketId key))
          (cfg.calcSlotBucketId (cfg.bucketId key) i) key
        if r.isValid then some r.toItemRecord else none := by
  simp only [peek, lockExisting, lockedBucket, h]

theorem address_ne_zero_of_peek {r : ItemRecord} (h : peek cfg s key = some r) :
    r.address ≠ 0 := by
  simp only [peek, ite_none_right_eq_some, some.injEq] at h
  obtain ⟨hvalid, rfl⟩ := h
  exact of_decide_eq_true hvalid

/-! ### Records in blocks -/

theorem recordAt_of_plain {sid c : UInt64} (hplain : (s.ht c).isCombinedEntry = false) :
    recordAt s sid c key = s.ht c := by
  simp [recordAt, hplain]

section

variable {sid c : UInt64} {block : CombinedEntryBlock}
  (hcombined : (s.ht c).isCombinedEntry = true) (hblock : s.combinedEntries sid c = some block)

include hcombined hblock

theorem recordAt_of_block_none (hentry : block.getIndexEntry key = none) :
    recordAt s sid c key = {} := by
  simp [recordAt, hcombined, hblock, hentry]

theorem recordAt_of_block_some {r : PackedItemRecord} (hentry : block.getIndexEntry key = some r) :
    recordAt s sid c key = r.bumpCurHits (s.ht c).curHits.val := by
  simp [recordAt, hcombined, hblock, hentry]

end

theorem createdBlock_combined (s : State) (c : UInt64) (r : PackedItemRecord) :
    ((s.setRecord c r.setCombinedEntry).ht c).isCombinedEntry = true := by
  rw [State.setRecord_ht, if_pos rfl]
  rfl

theorem createdBlock_entries (s : State) (sid c : UInt64) (block : CombinedEntryBlock)
    (r : PackedItemRecord) :
    ((s.setBlock sid c block).setRecord c r).combinedEntries sid c = some block :=
  State.setBlock_self sid c block

/-- A key in a bucket of its own is found there. -/
theorem peek_of_own_bucket (haccepted : cfg.Accepted) {i : Fin 4}
    (hlive : cfg.handleOverflow = true → ∀ j, liveAt cfg s key j = false)
    (hmatch : matchesSlot cfg s (cfg.bucketId key) key i = true)
    (hbefore : ∀ j < i, matchesSlot cfg s (cfg.bucketId key) key j = false) :
    peek cfg s key = some (s.ht (cfg.calcSlotBucketId (cfg.bucketId key) i)).toItemRecord := by
  rw [peek_of_check_some ((check_eq_some_iff haccepted).mpr (Or.inr ⟨hlive, hmatch, hbefore⟩))]
  simp only [matchesSlot, Bool.and_eq_true, Bool.not_eq_true'] at hmatch
  obtain ⟨⟨⟨hvalid, hplain⟩, -⟩, -⟩ := hmatch
  simp only [recordAt_of_plain hplain, hvalid, if_true]

theorem peek_of_block (haccepted : cfg.Accepted) (hoverflow : cfg.handleOverflow = true)
    {i : Fin 4} {c : UInt64} (hc : c = cfg.calcSlotBucketId (cfg.bucketId key) i)
    (hcombined : (s.ht c).isCombinedEntry = true) {block : CombinedEntryBlock}
    (hblock : s.combinedEntries (cfg.shardId (cfg.bucketId key)) c = some block)
    {r : PackedItemRecord} (hentry : block.getIndexEntry key = some r) (hr : r.address ≠ 0)
    (hbefore : ∀ j < i, cfg.calcSlotBucketId (cfg.bucketId key) j ≠ c →
      liveAt cfg s key j = false) :
    ∃ r', peek cfg s key = some r' ∧ r'.address = r.address := by
  have hlive : liveAt cfg s key i = true := by
    simp [liveAt, ← hc, hcombined, hblock, CombinedEntryBlock.peekIndexEntry_eq, hentry]
  rcases hfirst : slotOffsets.find? (liveAt cfg s key) with _ | j
  · exact absurd hlive (by simp [find_slotOffsets_none.mp hfirst i])
  obtain ⟨hj, hless⟩ := find_slotOffsets.mp hfirst
  -- the first block that has the key is this one, maybe as an earlier slot
  have hslot : cfg.calcSlotBucketId (cfg.bucketId key) j = c := by
    by_contra hne
    rcases lt_trichotomy j i with hlt | rfl | hgt
    · exact absurd hj (by simp [hbefore j hlt hne])
    · exact hne hc.symm
    · exact absurd hlive (by simp [hless i hgt])
  have hrecord := recordAt_of_block_some hcombined hblock hentry
  have hvalid : (r.bumpCurHits (s.ht c).curHits.val).isValid = true := decide_eq_true hr
  rw [peek_of_check_some ((check_eq_some_iff haccepted).mpr (Or.inl ⟨hoverflow, hj, hless⟩)), hslot,
    hrecord]
  exact ⟨_, if_pos hvalid, rfl⟩

/-! ## Room in a bucket -/

section

variable {bid : UInt64} {i : Fin 4} (hempty : EmptySlot cfg s bid s' i)

include hempty

theorem EmptySlot.isValid_eq_false : (s'.ht (cfg.calcSlotBucketId bid i)).isValid = false := by
  cases hempty with
  | free _ hfree => exact hfree
  | moved _ sub c hc _ _ _ _ _ =>
      subst hc
      simp only [State.moveEntry, State.updateBucketFillInfo, State.setRecord, update_self]
      rfl

/-- The buckets in use other than the one that makes room are as before. -/
theorem EmptySlot.unchanged {b : UInt64} (hvalid : (s.ht b).isValid = true)
    (hb : b ≠ cfg.calcSlotBucketId bid i) :
    s'.ht b = s.ht b ∧ s'.getBucketFillOffset b = s.getBucketFillOffset b ∧
      s'.getPartialKey b = s.getPartialKey b := by
  cases hempty with
  | free _ _ => exact ⟨rfl, rfl, rfl⟩
  | moved _ sub c hc _ _ _ _ hfree =>
      have hne : b ≠ cfg.calcSlotBucketId (cfg.originalBucketId c (s.getBucketFillOffset c)) sub := by
        rintro rfl
        rw [hfree] at hvalid
        exact Bool.noConfusion hvalid
      rw [State.moveEntry, State.getBucketFillOffset_update, State.getPartialKey_update, if_neg hne,
        if_neg hne]
      refine ⟨?_, rfl, rfl⟩
      change ((s.setRecord _ _).setRecord c {}).ht b = _
      rw [State.setRecord_ht, State.setRecord_ht, if_neg (hc ▸ hb), if_neg hne]

/-- No bucket becomes a block. -/
theorem EmptySlot.combined_before {b : UInt64} (hb : (s'.ht b).isCombinedEntry = true) :
    (s.ht b).isCombinedEntry = true := by
  cases hempty with
  | free _ _ => exact hb
  | moved _ sub c _ _ hcombined _ _ _ =>
      change (((s.setRecord _ _).setRecord c {}).ht b).isCombinedEntry = true at hb
      rw [State.setRecord_ht, State.setRecord_ht] at hb
      split at hb
      · exact absurd hb (by decide)
      · split at hb
        · exact absurd hb (by simp [hcombined])
        · exact hb

theorem EmptySlot.combinedEntries_eq : s'.combinedEntries = s.combinedEntries := by
  cases hempty with
  | free _ _ => rfl
  | moved _ _ _ _ _ _ _ _ _ => rfl

/-- A block does not make room. -/
theorem EmptySlot.plain_before (hsound : s.BlocksSound cfg) {c : UInt64}
    (hc : c = cfg.calcSlotBucketId bid i) : (s.ht c).isCombinedEntry = false := by
  cases hempty with
  | free _ hfree =>
      by_contra hcombined
      rw [Bool.not_eq_false] at hcombined
      rw [← hc] at hfree
      exact absurd (hsound.valid c hcombined) (by simp [hfree])
  | moved _ sub c' hc' _ hcombined _ _ _ => exact hc.trans hc'.symm ▸ hcombined

theorem EmptySlot.plain (hsound : s.BlocksSound cfg) {c : UInt64}
    (hc : c = cfg.calcSlotBucketId bid i) : (s'.ht c).isCombinedEntry = false := by
  by_contra hcombined
  rw [Bool.not_eq_false] at hcombined
  have hbefore := hempty.combined_before hcombined
  rw [hempty.plain_before hsound hc] at hbefore
  exact Bool.noConfusion hbefore

end

/-! ## The call -/

section

variable (address : UInt32) (sizeHint : UInt16) {s₁ : State} {i : Fin 4} {c : UInt64}
  (hc : c = cfg.calcSlotBucketId (cfg.bucketId key) i)
  (hdecided : decideBucketSlotOffset cfg s retrieveKey (cfg.bucketId key) key = (s₁, i))

include hc hdecided

end

section

variable {lb : LockedBucket} {i : Fin 4} {c : UInt64} (hslot : lb.slot = some (i, c))
  (r : PackedItemRecord)

include hslot

theorem updateRecord_of_plain (hplain : (s.ht c).isCombinedEntry = false) :
    lb.updateRecord s r = (s.setRecord c r).updateBucketFillInfo c i (partialKeyBits lb.key) := by
  simp [LockedBucket.updateRecord, hslot, hplain]

theorem updateRecord_of_block (hcombined : (s.ht c).isCombinedEntry = true)
    {block : CombinedEntryBlock} (hblock : s.combinedEntries lb.sid c = some block) :
    lb.updateRecord s r = s.setBlock lb.sid c (block.addIndexEntry c lb.key r).2 := by
  simp [LockedBucket.updateRecord, hslot, hcombined, LockedBucket.insertCombinedIndexEntry, hblock]

end

section

variable {address : UInt32} (sizeHint : UInt16) {s₁ : State} {i : Fin 4}

section

variable {c : UInt64} (hc : c = cfg.calcSlotBucketId (cfg.bucketId key) i)
  (hdecided : decideBucketSlotOffset cfg s retrieveKey (cfg.bucketId key) key = (s₁, i))
  (hcombined : (s₁.ht c).isCombinedEntry = true) {block : CombinedEntryBlock}
  (hblock : s₁.combinedEntries (cfg.shardId (cfg.bucketId key)) c = some block)
  (hinvalid : (recordAt s₁ (cfg.shardId (cfg.bucketId key)) c key).isValid = false)

include hc hdecided hcombined hblock hinvalid

end

end

end CacheLib.Navy.FixedSizeIndex
