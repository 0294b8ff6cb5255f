/-
The table of a `FixedSizeIndex` as a slot table.

A bucket that holds the entry of a key, and not a block, is a cell: the slot offset and
the partial bits it is stored with, and its record. Everything the operations do to the
table is writing, clearing or moving a cell, so what they do to the classes of keys is
told by `SlotTable`. For this the slots of a bucket have to be different buckets of the
table, which they are if a shard is longer than every distance and the shards are full.
-/
import CacheLib.Lib.SlotTable
import CacheLib.Navy.FixedSizeIndex
import Mathlib.Order.Fin.Basic

set_option autoImplicit false

namespace CacheLib.Navy.FixedSizeIndex

open SlotTable Function List Option

variable {cfg : Config} {s s' : State} {bid : UInt64} {tag : UInt8} {i : Fin 4}
  {r : PackedItemRecord}

/-! ## Slots -/

/-- A configuration in which a shard is longer than every distance, and all shards are
full. -/
structure Config.Regular (cfg : Config) : Prop where
  accepted : cfg.Accepted
  offset_lt : ∀ i, kNextSlotOffset i < cfg.numBucketsPerShard
  dvd : cfg.numBucketsPerShard.toNat ∣ cfg.totalBuckets.toNat

namespace Config

theorem Regular.fits (h : cfg.Regular) : cfg.Fits :=
  ⟨h.accepted, fun i => UInt64.le_of_lt (h.offset_lt i), h.dvd⟩

theorem kNextSlotOffset_injective {i j : Fin 4}
    (h : (kNextSlotOffset i).toNat = (kNextSlotOffset j).toNat) : i = j := by
  revert i j
  decide

theorem Regular.slot_inj (h : cfg.Regular) (hbid : bid < cfg.totalBuckets)
    {i j : Fin 4} (heq : cfg.calcSlotBucketId bid i = cfg.calcSlotBucketId bid j) : i = j := by
  have hpos := h.accepted.shard_pos
  have hi : (kNextSlotOffset i).toNat < cfg.numBucketsPerShard.toNat := h.offset_lt i
  have hj : (kNextSlotOffset j).toNat < cfg.numBucketsPerShard.toNat := h.offset_lt j
  have hl := Nat.mod_lt bid.toNat hpos
  have hslot := congrArg UInt64.toNat heq
  rw [h.accepted.toNat_calcSlotBucketId hbid, h.accepted.toNat_calcSlotBucketId hbid,
    add_mod_wrap hl hi.le, add_mod_wrap hl hj.le] at hslot
  apply kNextSlotOffset_injective
  split_ifs at hslot <;> omega

/-- From a bucket back to the one it is a slot of, and on to the slot. -/
theorem Regular.slot_orig (h : cfg.Regular) {c : UInt64} (hc : c < cfg.totalBuckets) (i : Fin 4) :
    cfg.originalBucketId c i < cfg.totalBuckets ∧
      cfg.calcSlotBucketId (cfg.originalBucketId c i) i = c := by
  have hpos := h.accepted.shard_pos
  have hoff : (kNextSlotOffset i).toNat < cfg.numBucketsPerShard.toNat := h.offset_lt i
  have hend := h.fits.shard_end_le hc
  have hl := Nat.mod_lt c.toNat hpos
  have hdiv := Nat.div_add_mod' c.toNat cfg.numBucketsPerShard.toNat
  -- the bucket found is the one of the same shard with the distance taken off
  obtain ⟨l, hl', horig, hwrap⟩ : ∃ l < cfg.numBucketsPerShard.toNat,
      (cfg.originalBucketId c i).toNat
        = c.toNat / cfg.numBucketsPerShard.toNat * cfg.numBucketsPerShard.toNat + l ∧
      (l + (kNextSlotOffset i).toNat) % cfg.numBucketsPerShard.toNat
        = c.toNat % cfg.numBucketsPerShard.toNat := by
    by_cases hle : (kNextSlotOffset i).toNat ≤ c.toNat % cfg.numBucketsPerShard.toNat
    · refine ⟨c.toNat % cfg.numBucketsPerShard.toNat - (kNextSlotOffset i).toNat, by omega, ?_, ?_⟩
      · rw [toNat_originalBucketId_of_le hle]
        omega
      · rw [Nat.sub_add_cancel hle, Nat.mod_eq_of_lt hl]
    · have hlt := Nat.not_le.mp hle
      refine ⟨c.toNat % cfg.numBucketsPerShard.toNat + cfg.numBucketsPerShard.toNat
        - (kNextSlotOffset i).toNat, by omega, ?_, ?_⟩
      · rw [h.fits.toNat_originalBucketId_of_lt hlt hc]
        omega
      · rw [Nat.sub_add_cancel (by omega), Nat.add_mod_right, Nat.mod_eq_of_lt hl]
  have hmem : cfg.originalBucketId c i < cfg.totalBuckets := by
    rw [UInt64.lt_iff_toNat_lt, horig]
    omega
  refine ⟨hmem, ?_⟩
  have hshard : (cfg.originalBucketId c i).toNat / cfg.numBucketsPerShard.toNat
      = c.toNat / cfg.numBucketsPerShard.toNat := by
    rw [horig, Nat.add_comm, Nat.add_mul_div_right _ _ hpos, Nat.div_eq_of_lt hl', Nat.zero_add]
  have hlocal : (cfg.originalBucketId c i).toNat % cfg.numBucketsPerShard.toNat = l := by
    rw [horig, Nat.mul_add_mod', Nat.mod_eq_of_lt hl']
  rw [← UInt64.toNat_inj, h.accepted.toNat_calcSlotBucketId hmem, hshard, hlocal, hwrap, hdiv]

/-- The buckets of a regular configuration with their four slots. -/
def Regular.slots (h : cfg.Regular) : Slots UInt64 (Fin 4) where
  mem := fun c => c < cfg.totalBuckets
  slot := cfg.calcSlotBucketId
  orig := cfg.originalBucketId
  slot_mem := fun hb i => (h.fits.slot_spec hb i).1
  orig_mem := fun hc i => (h.slot_orig hc i).1
  orig_slot := fun hb i => (h.fits.slot_spec hb i).2.2
  slot_orig := fun hc i => (h.slot_orig hc i).2
  slot_inj := fun hb => h.slot_inj hb

theorem Accepted.bucketId_lt (h : cfg.Accepted) (key : UInt64) :
    cfg.bucketId key < cfg.totalBuckets := by
  have hpos := h.shard_pos
  have hle : cfg.numBucketsPerShard.toNat ≤ cfg.totalBuckets.toNat := h.shard_le
  rw [bucketId, UInt64.lt_iff_toNat_lt, UInt64.toNat_mod]
  exact Nat.mod_lt _ (hpos.trans_le hle)

theorem Regular.bucketId_lt (h : cfg.Regular) (key : UInt64) :
    cfg.bucketId key < cfg.totalBuckets :=
  h.accepted.bucketId_lt key

end Config

/-! ## Cells -/

/-- What a record stored with an offset and partial bits is in the table. -/
def cellOf (r : PackedItemRecord) (i : Fin 4) (tag : UInt8) :
    Option (Cell (Fin 4) UInt8 PackedItemRecord) :=
  if r.isValid && !r.isCombinedEntry then some ⟨i, tag, r⟩ else none

/-- The entries of the table that are in a bucket of their own. -/
def State.cells (s : State) (c : UInt64) : Option (Cell (Fin 4) UInt8 PackedItemRecord) :=
  cellOf (s.ht c) (s.getBucketFillOffset c) (s.getPartialKey c)

theorem cellOf_eq_some_iff {x : Cell (Fin 4) UInt8 PackedItemRecord} :
    cellOf r i tag = some x ↔
      r.isValid = true ∧ r.isCombinedEntry = false ∧ x = ⟨i, tag, r⟩ := by
  rw [cellOf, ite_none_right_eq_some, some.injEq, Bool.and_eq_true,
    Bool.not_eq_true', and_assoc, eq_comm (a := x)]

/-- A record is stored under the class it is written with, if at all. -/
theorem cellOf_class (x : Cell (Fin 4) UInt8 PackedItemRecord) (h : cellOf r i tag = some x) :
    x.offset = i ∧ x.tag = tag := by
  obtain ⟨-, -, rfl⟩ := cellOf_eq_some_iff.mp h
  exact ⟨rfl, rfl⟩

theorem cellOf_of_invalid (h : r.isValid = false) (i : Fin 4)
    (tag : UInt8) : cellOf r i tag = none := by
  simp [cellOf, h]

theorem cellOf_of_combined (h : r.isCombinedEntry = true) (i : Fin 4)
    (tag : UInt8) : cellOf r i tag = none := by
  simp [cellOf, h]

/-- `matchesSlot` looks for the cell of the key's class. -/
theorem matchesSlot_iff {bid key : UInt64} :
    matchesSlot cfg s bid key i = true ↔
      s.cells (cfg.calcSlotBucketId bid i)
        = some ⟨i, partialKeyBits key, s.ht (cfg.calcSlotBucketId bid i)⟩ := by
  simp only [matchesSlot, State.cells, cellOf_eq_some_iff, Bool.and_eq_true, Bool.not_eq_true',
    decide_eq_true_eq, Cell.mk.injEq, and_true, and_assoc]
  constructor
  · rintro ⟨hvalid, hcombined, hoffset, htag⟩
    exact ⟨hvalid, hcombined, hoffset.symm, htag⟩
  · rintro ⟨hvalid, hcombined, hoffset, htag⟩
    exact ⟨hvalid, hcombined, hoffset.symm, htag⟩

/-! ## What writes do to the cells -/

namespace State

theorem setRecord_ht (c b : UInt64) (r : PackedItemRecord) :
    (s.setRecord c r).ht b = if b = c then r else s.ht b := by
  simp only [setRecord, update_apply]

theorem setBlock_self (sid c : UInt64) (block : CombinedEntryBlock) :
    (s.setBlock sid c block).combinedEntries sid c = some block := by
  simp [setBlock]

theorem setBlock_of_ne (sid sid' : UInt64) {c b : UInt64} (block : CombinedEntryBlock)
    (hne : b ≠ c) : (s.setBlock sid c block).combinedEntries sid' b = s.combinedEntries sid' b := by
  by_cases hsid : sid' = sid
  · subst hsid
    simp [setBlock, update_of_ne hne]
  · simp [setBlock, update_of_ne hsid]

theorem cells_setRecord (c : UInt64) (r : PackedItemRecord) :
    (s.setRecord c r).cells
      = update s.cells c (cellOf r (s.getBucketFillOffset c) (s.getPartialKey c)) := by
  funext b
  by_cases hb : b = c
  · subst hb
    rw [update_self]
    simp only [cells, setRecord_ht, if_pos]
    rfl
  · rw [update_of_ne hb]
    simp only [cells, setRecord_ht, if_neg hb]
    rfl

theorem getBucketFillOffset_update (c b : UInt64) (i : Fin 4) (tag : UInt8) :
    (s.updateBucketFillInfo c i tag).getBucketFillOffset b
      = if b = c then i else s.getBucketFillOffset b :=
  getBucketFillInfo_set s.fillMap c b i

theorem getPartialKey_update (c b : UInt64) (i : Fin 4) (tag : UInt8) :
    (s.updateBucketFillInfo c i tag).getPartialKey b
      = if b = c then tag else s.getPartialKey b := by
  simp only [getPartialKey, updateBucketFillInfo, update_apply]

theorem cells_updateBucketFillInfo (c : UInt64) (i : Fin 4) (tag : UInt8) :
    (s.updateBucketFillInfo c i tag).cells = update s.cells c (cellOf (s.ht c) i tag) := by
  funext b
  by_cases hb : b = c
  · subst hb
    rw [update_self, cells, getBucketFillOffset_update, getPartialKey_update, if_pos rfl,
      if_pos rfl]
    rfl
  · rw [update_of_ne hb, cells, getBucketFillOffset_update, getPartialKey_update,
      if_neg hb, if_neg hb]
    rfl

/-- A record written with the offset and the bits of its key. -/
theorem cells_setEntry (c : UInt64) (r : PackedItemRecord) (i : Fin 4) (tag : UInt8) :
    ((s.setRecord c r).updateBucketFillInfo c i tag).cells
      = update s.cells c (cellOf r i tag) := by
  rw [cells_updateBucketFillInfo, cells_setRecord, update_idem, setRecord_ht, if_pos rfl]

/-- A move in the table is a move of the cell. -/
theorem cells_moveEntry (hreg : cfg.Regular) {c : UInt64} {sub : Fin 4}
    {x : Cell (Fin 4) UInt8 PackedItemRecord} (hx : s.cells c = some x)
    (hfree : (s.ht (cfg.calcSlotBucketId (cfg.originalBucketId c x.offset) sub)).isValid = false) :
    (s.moveEntry c (cfg.calcSlotBucketId (cfg.originalBucketId c x.offset) sub) sub).cells
      = relocate hreg.slots s.cells c x sub := by
  obtain ⟨hvalid, hcombined, rfl⟩ := cellOf_eq_some_iff.mp hx
  have hne : cfg.calcSlotBucketId (cfg.originalBucketId c (s.getBucketFillOffset c)) sub ≠ c := by
    intro heq
    rw [heq, hvalid] at hfree
    exact Bool.noConfusion hfree
  rw [moveEntry, cells_updateBucketFillInfo, cells_setRecord, cells_setRecord]
  rw [update_comm hne, update_idem, setRecord_ht, if_neg hne, setRecord_ht,
    if_pos rfl]
  have hmoved : cellOf (s.ht c) sub (s.getPartialKey c)
      = some ⟨sub, s.getPartialKey c, s.ht c⟩ := by
    simp [cellOf, hvalid, hcombined]
  rw [hmoved, relocate, update_comm hne.symm]
  rfl

end State

/-! ## Where room is found -/

/-- Slot `i` of a bucket is empty in the second state: it was, or its entry has been moved
to a free slot of its home. -/
inductive EmptySlot (cfg : Config) (s : State) (bid : UInt64) : State → Fin 4 → Prop
  | free (i : Fin 4) (hfree : (s.ht (cfg.calcSlotBucketId bid i)).isValid = false) :
      EmptySlot cfg s bid s i
  | moved (i sub : Fin 4) (c : UInt64) (hc : c = cfg.calcSlotBucketId bid i)
      (hvalid : (s.ht c).isValid = true) (hcombined : (s.ht c).isCombinedEntry = false)
      (hoffset : s.getBucketFillOffset c ≠ i) (hsub : sub ≠ s.getBucketFillOffset c)
      (hfree : (s.ht (cfg.calcSlotBucketId
        (cfg.originalBucketId c (s.getBucketFillOffset c)) sub)).isValid = false) :
      EmptySlot cfg s bid
        (s.moveEntry c
          (cfg.calcSlotBucketId (cfg.originalBucketId c (s.getBucketFillOffset c)) sub) sub) i

/-- What a move does to the cells. -/
theorem EmptySlot.cells_eq (hreg : cfg.Regular) (hbid : bid < cfg.totalBuckets)
    (h : EmptySlot cfg s bid s' i) :
    s' = s ∨ ∃ c x sub, hreg.slots.mem c ∧ s.cells c = some x ∧
      s.cells (hreg.slots.slot (hreg.slots.orig c x.offset) sub) = none ∧
      s'.cells = relocate hreg.slots s.cells c x sub := by
  cases h with
  | free _ _ => exact Or.inl rfl
  | moved _ sub c hc hvalid hcombined hoffset hsub hfree =>
      have hmem : c < cfg.totalBuckets := hc ▸ hreg.slots.slot_mem hbid i
      have hx : s.cells c = some ⟨s.getBucketFillOffset c, s.getPartialKey c, s.ht c⟩ :=
        cellOf_eq_some_iff.mpr ⟨hvalid, hcombined, rfl⟩
      have hnone : s.cells (hreg.slots.slot (hreg.slots.orig c (s.getBucketFillOffset c)) sub) = none :=
        cellOf_of_invalid hfree _ _
      have hmoved := State.cells_moveEntry hreg hx hfree
      refine Or.inr ⟨c, ⟨s.getBucketFillOffset c, s.getPartialKey c, s.ht c⟩, sub, hmem, hx, hnone, ?_⟩
      exact hmoved

theorem EmptySlot.onePlace (hreg : cfg.Regular) (hbid : bid < cfg.totalBuckets)
    (hempty : EmptySlot cfg s bid s' i) (h : OnePlace hreg.slots s.cells) :
    OnePlace hreg.slots s'.cells := by
  rcases hempty.cells_eq hreg hbid with rfl | ⟨c, x, sub, hc, hx, hnone, hcells⟩
  · exact h
  · rw [hcells]
    exact h.relocate hc hx hnone

theorem EmptySlot.held_iff (hreg : cfg.Regular) (hbid : bid < cfg.totalBuckets)
    (hempty : EmptySlot cfg s bid s' i) {home : UInt64}
    (hhome : home < cfg.totalBuckets) :
    Held hreg.slots s'.cells home tag r ↔ Held hreg.slots s.cells home tag r := by
  rcases hempty.cells_eq hreg hbid with rfl | ⟨c, x, sub, hc, hx, hnone, hcells⟩
  · exact Iff.rfl
  · rw [hcells]
    exact held_relocate hc hx hnone hhome

/-- Offsets are tried in order, so that those before the one found are taken. -/
theorem findOrMakeEmptySlot_some {is : List (Fin 4)}
    (h : findOrMakeEmptySlot cfg s bid is = some (s', i)) :
    EmptySlot cfg s bid s' i ∧ ∃ before after, is = before ++ i :: after ∧
      ∀ j ∈ before, (s.ht (cfg.calcSlotBucketId bid j)).isValid = true := by
  induction is with
  | nil => exact absurd h (by simp [findOrMakeEmptySlot])
  | cons j rest ih =>
      -- the rest of the loop, after a slot that is taken
      have hrest : (s.ht (cfg.calcSlotBucketId bid j)).isValid = true →
          findOrMakeEmptySlot cfg s bid rest = some (s', i) →
          EmptySlot cfg s bid s' i ∧ ∃ before after, j :: rest = before ++ i :: after ∧
            ∀ k ∈ before, (s.ht (cfg.calcSlotBucketId bid k)).isValid = true := by
        intro hvalid hfound
        obtain ⟨hslot, before, after, hsplit, hbefore⟩ := ih hfound
        refine ⟨hslot, j :: before, after, by rw [hsplit, cons_append], ?_⟩
        exact forall_mem_cons.mpr ⟨hvalid, hbefore⟩
      rw [findOrMakeEmptySlot] at h
      by_cases hvalid : (s.ht (cfg.calcSlotBucketId bid j)).isValid = true
      · simp only [hvalid, Bool.not_true, Bool.false_eq_true, if_false] at h
        by_cases hcombined : (s.ht (cfg.calcSlotBucketId bid j)).isCombinedEntry = true
        · rw [if_pos hcombined] at h
          exact hrest hvalid h
        rw [if_neg hcombined] at h
        by_cases hoffset : s.getBucketFillOffset (cfg.calcSlotBucketId bid j) = j
        · rw [if_neg (not_not.mpr hoffset)] at h
          exact hrest hvalid h
        rw [if_pos hoffset] at h
        split at h
        · rename_i sub hsub
          have hfound := find?_some hsub
          simp only [ne_eq, Bool.and_eq_true, decide_eq_true_eq, Bool.not_eq_true'] at hfound
          simp only [some.injEq, Prod.mk.injEq] at h
          obtain ⟨rfl, rfl⟩ := h
          refine ⟨.moved j sub _ rfl hvalid (by simpa using hcombined) hoffset hfound.1 hfound.2,
            [], rest, rfl, ?_⟩
          exact fun k hk => absurd hk not_mem_nil
        · exact hrest hvalid h
      · have hfree : (s.ht (cfg.calcSlotBucketId bid j)).isValid = false := by simpa using hvalid
        simp only [hfree, Bool.not_false, if_true, some.injEq, Prod.mk.injEq] at h
        obtain ⟨rfl, rfl⟩ := h
        exact ⟨.free j hfree, [], rest, rfl, fun k hk => absurd hk not_mem_nil⟩

theorem mem_slotOffsets (i : Fin 4) : i ∈ slotOffsets := by
  revert i
  decide

theorem findOrMakeEmptySlotByMoving_some
    (h : findOrMakeEmptySlotByMoving cfg s bid = some (s', i)) :
    EmptySlot cfg s bid s' i ∧
      ∀ j < i, (s.ht (cfg.calcSlotBucketId bid j)).isValid = true := by
  obtain ⟨hempty, before, after, hsplit, hbefore⟩ := findOrMakeEmptySlot_some h
  refine ⟨hempty, ?_⟩
  intro j hj
  have hsorted : slotOffsets.Pairwise (· < ·) := by decide
  have hmem := mem_slotOffsets j
  rw [hsplit] at hsorted hmem
  obtain ⟨-, hafter, -⟩ := pairwise_append.mp hsorted
  rcases mem_append.mp hmem with hmem | hmem
  · exact hbefore j hmem
  · rcases mem_cons.mp hmem with rfl | hmem
    · exact absurd hj (lt_irrefl _)
    · exact absurd hj (rel_of_pairwise_cons hafter hmem).not_gt

theorem isValid_of_findOrMakeEmptySlot {is : List (Fin 4)}
    (h : findOrMakeEmptySlot cfg s bid is = none) :
    ∀ i ∈ is, (s.ht (cfg.calcSlotBucketId bid i)).isValid = true := by
  induction is with
  | nil => exact fun i hi => absurd hi not_mem_nil
  | cons j rest ih =>
      rw [findOrMakeEmptySlot] at h
      have hvalid : (s.ht (cfg.calcSlotBucketId bid j)).isValid = true := by
        by_contra hfree
        rw [Bool.not_eq_true] at hfree
        simp [hfree] at h
      refine forall_mem_cons.mpr ⟨hvalid, ih ?_⟩
      simp only [hvalid, Bool.not_true, Bool.false_eq_true, if_false] at h
      split_ifs at h with hcombined hoffset
      · exact h
      · split at h
        · exact absurd h (by simp)
        · exact h
      · exact h

/-- The block made of the entry of a bucket. -/
def newBlock (bid key : UInt64) (record : PackedItemRecord) : CombinedEntryBlock :=
  ⟨[⟨bid, key, false, record⟩]⟩

theorem getIndexEntry_newBlock (bid key key' : UInt64) (record : PackedItemRecord) :
    (newBlock bid key record).getIndexEntry key' = if key = key' then some record else none := by
  by_cases h : key = key' <;>
    simp [CombinedEntryBlock.getIndexEntry, CombinedEntryBlock.find, newBlock, h]

theorem createCombinedIndexBlock_eq (retrieveKey : UInt32 → Option UInt64) (bid : UInt64)
    (record : PackedItemRecord) :
    createCombinedIndexBlock retrieveKey bid record
      = (retrieveKey record.address).map fun key => newBlock bid key record := by
  unfold createCombinedIndexBlock
  rcases retrieveKey record.address with _ | key
  · rfl
  · rfl

/-- How `decideBucketSlotOffset` ends. -/
inductive Decided (cfg : Config) (s : State) (retrieveKey : UInt32 → Option UInt64)
    (bid key : UInt64) : State → Fin 4 → Prop
  /-- the key has an entry -/
  | existing (i : Fin 4) (hfound : checkBucketSlotOffset cfg s bid key = some i) :
      Decided cfg s retrieveKey bid key s i
  /-- a slot is empty or has been emptied -/
  | room (s' : State) (i : Fin 4) (hnew : checkBucketSlotOffset cfg s bid key = none)
      (hroom : findOrMakeEmptySlotByMoving cfg s bid = some (s', i)) :
      Decided cfg s retrieveKey bid key s' i
  /-- one of the slots is a block -/
  | combined (i : Fin 4) (hnew : checkBucketSlotOffset cfg s bid key = none)
      (hfull : findOrMakeEmptySlotByMoving cfg s bid = none) (hoverflow : cfg.handleOverflow = true)
      (hcombined : (s.ht (cfg.calcSlotBucketId bid i)).isCombinedEntry = true) :
      Decided cfg s retrieveKey bid key s i
  /-- the home bucket becomes one -/
  | created (key' : UInt64) (c : UInt64) (hc : c = cfg.calcSlotBucketId bid 0)
      (hnew : checkBucketSlotOffset cfg s bid key = none)
      (hfull : findOrMakeEmptySlotByMoving cfg s bid = none) (hoverflow : cfg.handleOverflow = true)
      (hnone : ∀ i, (s.ht (cfg.calcSlotBucketId bid i)).isCombinedEntry = false)
      (hkey : retrieveKey (s.ht c).address = some key') :
      Decided cfg s retrieveKey bid key
        ((s.setBlock (cfg.shardId bid) c (newBlock c key' (s.ht c))).setRecord c
          (s.ht c).setCombinedEntry) 0
  /-- the entry in the home bucket is given up -/
  | replaced (hnew : checkBucketSlotOffset cfg s bid key = none)
      (hfull : findOrMakeEmptySlotByMoving cfg s bid = none)
      (hrefused : cfg.handleOverflow = true →
        (∀ i, (s.ht (cfg.calcSlotBucketId bid i)).isCombinedEntry = false) ∧
          retrieveKey (s.ht (cfg.calcSlotBucketId bid 0)).address = none) :
      Decided cfg s retrieveKey bid key s 0

theorem decided (cfg : Config) (s : State) (retrieveKey : UInt32 → Option UInt64)
    (bid key : UInt64) :
    Decided cfg s retrieveKey bid key (decideBucketSlotOffset cfg s retrieveKey bid key).1
      (decideBucketSlotOffset cfg s retrieveKey bid key).2 := by
  unfold decideBucketSlotOffset
  rcases hnew : checkBucketSlotOffset cfg s bid key with _ | i
  · rcases hfull : findOrMakeEmptySlotByMoving cfg s bid with _ | ⟨s', i⟩
    · by_cases hoverflow : cfg.handleOverflow = true
      · simp only [hoverflow, if_true]
        rcases hcombined : slotOffsets.find? fun i =>
            (s.ht (cfg.calcSlotBucketId bid i)).isCombinedEntry with _ | i
        · have hnone : ∀ i, (s.ht (cfg.calcSlotBucketId bid i)).isCombinedEntry = false := by
            intro i
            simpa using find?_eq_none.mp hcombined i (mem_slotOffsets i)
          rw [createCombinedIndexBlock_eq]
          rcases hkey : retrieveKey (s.ht (cfg.calcSlotBucketId bid 0)).address with _ | key'
          · exact .replaced hnew hfull fun _ => ⟨hnone, hkey⟩
          · exact .created key' _ rfl hnew hfull hoverflow hnone hkey
        · have hblock := find?_some hcombined
          exact .combined i hnew hfull hoverflow hblock
      · simp only [hoverflow, Bool.false_eq_true, if_false]
        exact .replaced hnew hfull fun h => absurd h hoverflow
    · exact .room s' i hnew hfull
  · exact .existing i hnew

end CacheLib.Navy.FixedSizeIndex
