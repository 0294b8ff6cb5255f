/-
What the index of a `BlockCache` may be trusted for.

`Coherent` ties the three things together that a lookup goes through: the bytes of
every region are entries laid one after another; every record of the index points to
one of them, in the slot of its key; and the value it points to is the one the key
was last given (`latest`). The entries of each region are a ghost, `layout`, that
grows with a write and is emptied with a reset.

The operations are made of few moves: a slot is written, a buffer is attached, a
buffer is flushed, a record is dropped or moved, a region is emptied once no record
points into it. Each has one lemma here.
-/
import CacheLib.Navy.BlockLayout

set_option autoImplicit false

namespace CacheLib.Navy.BlockCache

open Bytes Function List Option

variable {cfg : Config}

/-! ## Coherence -/

/-- The value each key was last given. -/
abbrev Latest := List UInt8 → Option (List UInt8)

/-- The entries of each region, with the offsets they end at. -/
abbrev Layout := RegionId → List (ℕ × Entry)

/-- The bytes a reader of the region sees. -/
def contents (cfg : Config) (s : State) (rid : RegionId) : Memory :=
  if (s.regions rid).physReadMode then onDevice cfg s.device rid
  else (s.regions rid).buffer.getD fun _ => 0

/-- The code 0 promises nothing: no lookup can follow it. -/
def Points (cfg : Config) (latest : Latest) (layout : Layout) (at_ : ℕ × ℕ)
    (record : ItemRecord) : Prop :=
  ∃ addr, InRange cfg addr ∧ record.address = encodeRelAddress cfg addr ∧
    (record.address ≠ 0 → ∃ e, (addr.offset, e) ∈ layout addr.rid ∧
      keySlot cfg e.key = at_ ∧ latest e.key = some e.value)

/-- Some record points to the entry of the region that ends there. -/
def Indexed (cfg : Config) (index : Index) (rid : RegionId) (off : ℕ) : Prop :=
  InRange cfg ⟨rid, off⟩ ∧ ∃ at_ record, index at_ = some record ∧ record.address ≠ 0 ∧
    record.address = encodeRelAddress cfg ⟨rid, off⟩

/-- What holds of a region with the bytes `m`, whose entries are `L`. -/
structure RegionOk (cfg : Config) (m : Memory) (L : List (ℕ × Entry)) (rid : RegionId)
    (r : Region Memory) : Prop where
  laid : Laid cfg m L r.lastEntryEndOffset
  full : r.lastEntryEndOffset ≤ cfg.regionSize
  items : r.numItems = 0 → r.lastEntryEndOffset = 0
  access : r.blockAccess = false
  cleanedup : r.cleanedup = false
  buffered : r.buffer.isSome → r.flushed = false ∧ rid < cfg.numRegions

/-- What holds of a region on the list of clean ones, beside that it is there once. -/
structure CleanOk (cfg : Config) (s : State) (rid : RegionId) : Prop where
  lt : rid < cfg.numRegions
  tracked : s.tracked rid = false
  buffer : (s.regions rid).buffer = none
  flushed : (s.regions rid).flushed = false
  empty : (s.regions rid).lastEntryEndOffset = 0

/-- **The invariant.** -/
structure Coherent (cfg : Config) (s : State) (latest : Latest) (layout : Layout) : Prop where
  region : ∀ rid, RegionOk cfg (contents cfg s rid) (layout rid) rid (s.regions rid)
  clean : ∀ rid ∈ s.cleanRegions, CleanOk cfg s rid
  nodup : s.cleanRegions.Nodup
  tracked : ∀ rid, s.tracked rid = true → rid < cfg.numRegions ∧ (s.regions rid).buffer = none
  points : ∀ at_ record, s.index at_ = some record → Points cfg latest layout at_ record

/-- The fields of a region coherence is about. -/
structure SameView (r r' : Region Memory) : Prop where
  flushed : r'.flushed = r.flushed
  buffer : r'.buffer = r.buffer
  lastEntryEndOffset : r'.lastEntryEndOffset = r.lastEntryEndOffset
  numItems : r'.numItems = r.numItems
  blockAccess : r'.blockAccess = r.blockAccess
  cleanedup : r'.cleanedup = r.cleanedup

theorem SameView.refl (r : Region Memory) : SameView r r := ⟨rfl, rfl, rfl, rfl, rfl, rfl⟩

theorem SameView.trans {r r' r'' : Region Memory} (h : SameView r r') (h' : SameView r' r'') :
    SameView r r'' :=
  ⟨h'.1.trans h.1, h'.2.trans h.2, h'.3.trans h.3, h'.4.trans h.4, h'.5.trans h.5,
    h'.6.trans h.6⟩

/-- A region nothing but a reclaim of it works on. -/
structure Idle (s : State) (rid : RegionId) : Prop where
  buffer : (s.regions rid).buffer = none
  clean : rid ∉ s.cleanRegions
  tracked : s.tracked rid = false

/-- From `s` to `s'` nothing happened to the region, and no record came to point into
it. -/
structure Beside (cfg : Config) (rid : RegionId) (s : State) (layout : Layout) (s' : State)
    (layout' : Layout) : Prop where
  region : SameView (s.regions rid) (s'.regions rid)
  layout : layout' rid = layout rid
  clean : rid ∈ s'.cleanRegions → rid ∈ s.cleanRegions
  tracked : s'.tracked rid = s.tracked rid
  indexed : ∀ off, Indexed cfg s'.index rid off → Indexed cfg s.index rid off

/-- Coherence is kept, beside every idle region. -/
def Moves (cfg : Config) (latest : Latest) (s : State) (layout : Layout) (s' : State)
    (layout' : Layout) : Prop :=
  Coherent cfg s' latest layout' ∧ ∀ rid, Idle s rid → Beside cfg rid s layout s' layout'

section Rules

variable {s s' s'' : State} {latest latest' : Latest} {layout layout' layout'' : Layout}
  {rid : RegionId} {off : ℕ} {e : Entry} {data : Memory} {index : Index} {at_ : ℕ × ℕ}
  {record : ItemRecord}

theorem Beside.refl (cfg : Config) (rid : RegionId) (s : State) (layout : Layout) :
    Beside cfg rid s layout s layout :=
  ⟨SameView.refl _, rfl, id, rfl, fun _ => id⟩

theorem Beside.trans (h : Beside cfg rid s layout s' layout')
    (h' : Beside cfg rid s' layout' s'' layout'') : Beside cfg rid s layout s'' layout'' where
  region := h.region.trans h'.region
  layout := h'.layout.trans h.layout
  clean hmem := h.clean (h'.clean hmem)
  tracked := h'.tracked.trans h.tracked
  indexed off hoff := h.indexed off (h'.indexed off hoff)

theorem Beside.idle (h : Beside cfg rid s layout s' layout') (hidle : Idle s rid) :
    Idle s' rid where
  buffer := h.region.buffer.trans hidle.buffer
  clean hmem := hidle.clean (h.clean hmem)
  tracked := h.tracked.trans hidle.tracked

theorem Moves.trans (h : Moves cfg latest s layout s' layout')
    (h' : Moves cfg latest s' layout' s'' layout'') : Moves cfg latest s layout s'' layout'' :=
  ⟨h'.1, fun rid hidle =>
    (h.2 rid hidle).trans (h'.2 rid ((h.2 rid hidle).idle hidle))⟩

theorem Moves.refl (h : Coherent cfg s latest layout) : Moves cfg latest s layout s layout :=
  ⟨h, fun rid _ => Beside.refl cfg rid s layout⟩

/-! ## Regions and their bytes -/

@[simp] theorem State.setRegion_self (s : State) (rid : RegionId) (r : Region Memory) :
    (s.setRegion rid r).regions rid = r := update_self ..

theorem State.setRegion_of_ne {other : RegionId} (r : Region Memory) (h : other ≠ rid) :
    (s.setRegion rid r).regions other = s.regions other := update_of_ne h ..

theorem contents_of_buffer (hbuffer : (s.regions rid).buffer = some data)
    (hflushed : (s.regions rid).flushed = false) : contents cfg s rid = data := by
  simp [contents, Region.physReadMode, hbuffer, hflushed]

theorem contents_of_none (hbuffer : (s.regions rid).buffer = none) :
    contents cfg s rid = onDevice cfg s.device rid := by
  simp [contents, Region.physReadMode, hbuffer]

/-- A region that is open for reading shows its contents. -/
theorem regionRead_physReadMode (s : State) (rid : RegionId) :
    regionRead cfg s rid (s.regions rid).physReadMode = some (reader (contents cfg s rid)) := by
  cases hmode : (s.regions rid).physReadMode with
  | true =>
      simp only [regionRead, contents, hmode, if_true, map_some]
      rfl
  | false =>
      have hsome : (s.regions rid).buffer.isSome := by
        rw [Region.physReadMode, Bool.or_eq_false_iff] at hmode
        exact isNone_eq_false_iff.mp hmode.2
      obtain ⟨data, hdata⟩ := isSome_iff_exists.mp hsome
      simp only [regionRead, contents, hmode, hdata, Bool.false_eq_true, if_false,
        map_some, getD_some]
      rfl

theorem SameView.setRegion {r : Region Memory} (h : SameView (s.regions rid) r)
    (other : RegionId) : SameView (s.regions other) ((s.setRegion rid r).regions other) := by
  by_cases hne : other = rid
  · rw [hne, State.setRegion_self]
    exact h
  · rw [State.setRegion_of_ne r hne]
    exact SameView.refl _

theorem contents_congr (hdevice : s'.device = s.device)
    (hview : SameView (s.regions rid) (s'.regions rid)) :
    contents cfg s' rid = contents cfg s rid := by
  have hmode : (s'.regions rid).physReadMode = (s.regions rid).physReadMode := by
    rw [Region.physReadMode, hview.flushed, hview.buffer, ← Region.physReadMode]
  rw [contents, hmode, hview.buffer, hdevice, ← contents]

theorem RegionOk.of_sameView {m : Memory} {L : List (ℕ × Entry)} {r r' : Region Memory}
    (h : RegionOk cfg m L rid r) (hview : SameView r r') : RegionOk cfg m L rid r' where
  laid := hview.lastEntryEndOffset ▸ h.laid
  full := hview.lastEntryEndOffset ▸ h.full
  items := by
    rw [hview.numItems, hview.lastEntryEndOffset]
    exact h.items
  access := hview.blockAccess.trans h.access
  cleanedup := hview.cleanedup.trans h.cleanedup
  buffered := by
    rw [hview.buffer, hview.flushed]
    exact h.buffered

/-- Only the bytes inside the region count. -/
theorem RegionOk.congr {m m' : Memory} {L : List (ℕ × Entry)} {r : Region Memory}
    (h : RegionOk cfg m L rid r) (hm : ∀ i < cfg.regionSize, m i = m' i) :
    RegionOk cfg m' L rid r where
  laid := h.laid.congr fun i hi => hm i (hi.trans_le h.full)
  full := h.full
  items := h.items
  access := h.access
  cleanedup := h.cleanedup
  buffered := h.buffered

/-- What is not among the fields of coherence may change. -/
theorem Coherent.of_sameView (h : Coherent cfg s latest layout) (hindex : s'.index = s.index)
    (hdevice : s'.device = s.device) (hclean : s'.cleanRegions = s.cleanRegions)
    (htracked : ∀ rid, s'.tracked rid = true → s.tracked rid = true)
    (hview : ∀ rid, SameView (s.regions rid) (s'.regions rid)) :
    Coherent cfg s' latest layout where
  region rid := by
    rw [contents_congr hdevice (hview rid)]
    exact (h.region rid).of_sameView (hview rid)
  clean rid hmem := by
    have hold := h.clean rid (hclean ▸ hmem)
    exact {
      lt := hold.lt
      tracked := Bool.eq_false_iff.mpr fun htrue =>
        Bool.eq_false_iff.mp hold.tracked (htracked rid htrue)
      buffer := (hview rid).buffer.trans hold.buffer
      flushed := (hview rid).flushed.trans hold.flushed
      empty := (hview rid).lastEntryEndOffset.trans hold.empty }
  nodup := hclean ▸ h.nodup
  tracked rid htrue := by
    rw [(hview rid).buffer]
    exact h.tracked rid (htracked rid htrue)
  points := hindex ▸ h.points

/-! ## Records -/

/-- Every record is an old one, up to its hits. -/
def SubIndex (index' index : Index) : Prop :=
  ∀ at_ record', index' at_ = some record' →
    ∃ record, index at_ = some record ∧ record'.address = record.address

theorem Index.remove_sub (index : Index) (at_ : ℕ × ℕ) : SubIndex (index.remove at_) index := by
  intro other record' hrecord
  by_cases hne : other = at_
  · rw [Index.remove, hne, update_self] at hrecord
    cases hrecord
  · rw [Index.remove, update_of_ne hne] at hrecord
    exact ⟨record', hrecord, rfl⟩

theorem Index.hit_sub (index : Index) (at_ : ℕ × ℕ) : SubIndex (index.hit at_) index := by
  intro other record' hrecord
  by_cases hne : other = at_
  · rw [Index.hit, hne, update_self] at hrecord
    obtain ⟨record, hold, rfl⟩ := map_eq_some_iff.mp hrecord
    exact ⟨record, hne ▸ hold, rfl⟩
  · rw [Index.hit, update_of_ne hne] at hrecord
    exact ⟨record', hrecord, rfl⟩

theorem SubIndex.refl (index : Index) : SubIndex index index :=
  fun _ record h => ⟨record, h, rfl⟩

theorem SubIndex.trans {index index' index'' : Index} (h : SubIndex index'' index')
    (h' : SubIndex index' index) : SubIndex index'' index := by
  intro at_ record'' hrecord
  obtain ⟨record', hrecord', heq⟩ := h at_ record'' hrecord
  obtain ⟨record, hold, heq'⟩ := h' at_ record' hrecord'
  exact ⟨record, hold, heq.trans heq'⟩

theorem removeItem_sub (index : Index) (key : List UInt8) (addr : RelAddress) :
    SubIndex (removeItem cfg index key addr) index := by
  rw [removeItem, Index.removeIfMatch]
  split
  · exact Index.remove_sub _ _
  · exact SubIndex.refl _

theorem Indexed.of_sub {index index' : Index} (hsub : SubIndex index' index)
    (h : Indexed cfg index' rid off) : Indexed cfg index rid off := by
  obtain ⟨hin, at_, record', hrecord, hne, haddr⟩ := h
  obtain ⟨record, hold, heq⟩ := hsub at_ record' hrecord
  exact ⟨hin, at_, record, hold, heq ▸ hne, heq ▸ haddr⟩

theorem Points.of_address {record record' : ItemRecord}
    (h : Points cfg latest layout at_ record) (heq : record'.address = record.address) :
    Points cfg latest layout at_ record' := by
  rw [Points, heq]
  exact h

theorem Points.mono
    (h : Points cfg latest layout at_ record) (hlayout : ∀ rid, layout rid ⊆ layout' rid) :
    Points cfg latest layout' at_ record := by
  obtain ⟨addr, hin, haddr, hentry⟩ := h
  refine ⟨addr, hin, haddr, fun hne => ?_⟩
  obtain ⟨e, hmem, hslot, hlatest⟩ := hentry hne
  exact ⟨e, hlayout _ hmem, hslot, hlatest⟩

variable (h : Coherent cfg s latest layout)

include h

/-- The index may be exchanged for one whose records point right. -/
theorem Coherent.reindex
    (hpoints : ∀ at_ record, index at_ = some record → Points cfg latest' layout at_ record) :
    Coherent cfg { s with index := index } latest' layout where
  region := h.region
  clean rid hmem := ⟨(h.clean rid hmem).lt, (h.clean rid hmem).tracked,
    (h.clean rid hmem).buffer, (h.clean rid hmem).flushed, (h.clean rid hmem).empty⟩
  nodup := h.nodup
  tracked := h.tracked
  points := hpoints

theorem Coherent.subIndex
    (hsub : SubIndex index s.index) : Coherent cfg { s with index := index } latest layout := by
  apply h.reindex
  intro at_ record' hrecord
  obtain ⟨record, hold, heq⟩ := hsub at_ record' hrecord
  exact (h.points at_ record hold).of_address heq

theorem Coherent.subIndex_moves
    (hsub : SubIndex index s.index) :
    Moves cfg latest s layout { s with index := index } layout :=
  ⟨h.subIndex hsub, fun _ _ => ⟨SameView.refl _, rfl, id, rfl, fun _ => Indexed.of_sub hsub⟩⟩

theorem Coherent.inRange (hrid : rid < cfg.numRegions)
    (hmem : (off, e) ∈ layout rid) : InRange cfg ⟨rid, off⟩ := by
  obtain ⟨hentry, hle, haligned⟩ := (h.region rid).laid.entryAt hmem
  exact ⟨hrid, hentry.pos.trans_le hentry.le, hle.trans (h.region rid).full, haligned⟩

theorem Coherent.latest_of_record
    (hrid : rid < cfg.numRegions) (hmem : (off, e) ∈ layout rid)
    (hrecord : s.index at_ = some record) (hne : record.address ≠ 0)
    (haddr : record.address = encodeRelAddress cfg ⟨rid, off⟩) :
    at_ = keySlot cfg e.key ∧ latest e.key = some e.value := by
  -- The code is the code of one address only, and one entry ends there.
  obtain ⟨addr, hin, haddr', hentry⟩ := h.points at_ record hrecord
  obtain rfl : addr = ⟨rid, off⟩ :=
    hin.encode_inj (h.inRange hrid hmem) (haddr' ▸ hne) (haddr'.symm.trans haddr)
  obtain ⟨e', hmem', hslot, hlatest⟩ := hentry hne
  obtain rfl : e' = e := (h.region rid).laid.unique hmem' hmem
  exact ⟨hslot.symm, hlatest⟩

theorem Coherent.entry_of_indexed
    (hindexed : Indexed cfg s.index rid off) : ∃ e, (off, e) ∈ layout rid := by
  obtain ⟨hin, at_, record, hrecord, hne, haddr⟩ := hindexed
  obtain ⟨addr, hin', haddr', hentry⟩ := h.points at_ record hrecord
  obtain rfl : addr = ⟨rid, off⟩ :=
    hin'.encode_inj hin (haddr' ▸ hne) (haddr'.symm.trans haddr)
  obtain ⟨e, hmem, -⟩ := hentry hne
  exact ⟨e, hmem⟩

theorem Coherent.address_of_decode
    (hrid : rid < cfg.numRegions)
    (hrecord : s.index at_ = some record)
    (hdecode : decodeRelAddress cfg record.address = ⟨rid, off⟩) :
    record.address ≠ 0 ∧ record.address = encodeRelAddress cfg ⟨rid, off⟩ := by
  obtain ⟨addr, hin, haddr, -⟩ := h.points at_ record hrecord
  -- The code 0 is decoded to a region that does not exist.
  have hne : record.address ≠ 0 := by
    intro hzero
    have hout := hin.decode_zero (haddr.symm.trans hzero)
    rw [hzero] at hdecode
    rw [hdecode] at hout
    exact absurd hrid (Nat.not_lt.mpr hout)
  refine ⟨hne, ?_⟩
  rw [haddr, hin.decode_encode (haddr ▸ hne)] at hdecode
  rw [haddr, hdecode]

/-- `removeItem` leaves no record that points to the item. -/
theorem Coherent.removeItem_not_indexed
    (hrid : rid < cfg.numRegions) (hmem : (off, e) ∈ layout rid) :
    ¬ Indexed cfg (removeItem cfg s.index e.key ⟨rid, off⟩) rid off := by
  rintro ⟨-, at_, record, hrecord, hne, haddr⟩
  obtain ⟨old, hold, heq⟩ := removeItem_sub _ _ _ at_ record hrecord
  obtain ⟨rfl, -⟩ := h.latest_of_record hrid hmem hold (heq ▸ hne) (heq ▸ haddr)
  -- The record is the one `removeIfMatch` looks at, and it matches.
  have hmatch : s.index.matchesAddress (keySlot cfg e.key)
      (encodeRelAddress cfg ⟨rid, off⟩) = true := by
    rw [Index.matchesAddress, hold, any_some, ← heq, haddr]
    exact beq_self_eq_true _
  rw [removeItem, Index.removeIfMatch, if_pos hmatch, Index.remove,
    update_self] at hrecord
  cases hrecord

theorem Coherent.not_indexed_of_peek
    (hrid : rid < cfg.numRegions) (hmem : (off, e) ∈ layout rid)
    (hpeek : ∀ record, s.index (keySlot cfg e.key) = some record →
      decodeRelAddress cfg record.address ≠ ⟨rid, off⟩) : ¬ Indexed cfg s.index rid off := by
  rintro ⟨-, at_, record, hrecord, hne, haddr⟩
  obtain ⟨rfl, -⟩ := h.latest_of_record hrid hmem hrecord hne haddr
  apply hpeek record hrecord
  rw [haddr]
  exact (h.inRange hrid hmem).decode_encode (haddr ▸ hne)

/-! ## Moves in one region -/

/-- Coherence is kept, and every region but `rid` is left alone. -/
def Touches (cfg : Config) (latest : Latest) (rid : RegionId) (s : State) (layout : Layout)
    (s' : State) (layout' : Layout) : Prop :=
  Coherent cfg s' latest layout' ∧
    ∀ other, other ≠ rid → Beside cfg other s layout s' layout'

omit h in
theorem Touches.moves (h : Touches cfg latest rid s layout s' layout') (hidle : ¬ Idle s rid) :
    Moves cfg latest s layout s' layout' :=
  ⟨h.1, fun other hother => h.2 other fun heq => hidle (heq ▸ hother)⟩

/-- What is not in view may change, in every region. -/
theorem Coherent.sameView_moves
    (hindex : s'.index = s.index) (hdevice : s'.device = s.device)
    (hclean : s'.cleanRegions = s.cleanRegions) (htracked : s'.tracked = s.tracked)
    (hview : ∀ rid, SameView (s.regions rid) (s'.regions rid)) :
    Moves cfg latest s layout s' layout :=
  ⟨h.of_sameView hindex hdevice hclean (fun _ => htracked ▸ id) hview,
    fun rid _ => ⟨hview rid, rfl, hclean ▸ id, htracked ▸ rfl, fun _ => hindex ▸ id⟩⟩

theorem Coherent.point (hin : InRange cfg ⟨rid, off⟩)
    (hmem : (off, e) ∈ layout rid)
    (haddr : record.address = encodeRelAddress cfg ⟨rid, off⟩)
    (hlatest : latest' e.key = some e.value)
    (hagree : ∀ key, key ≠ e.key → latest' key = latest key) :
    Touches cfg latest' rid s layout
      { s with index := update s.index (keySlot cfg e.key) (some record) } layout := by
  refine ⟨h.reindex ?_, ?_⟩
  · intro at_ record' hrecord
    by_cases hat : at_ = keySlot cfg e.key
    · rw [hat, update_self, some.injEq] at hrecord
      subst hrecord
      exact ⟨⟨rid, off⟩, hin, haddr, fun _ => ⟨e, hmem, hat.symm, hlatest⟩⟩
    · rw [update_of_ne hat] at hrecord
      obtain ⟨addr, hin', haddr', hentry⟩ := h.points at_ record' hrecord
      refine ⟨addr, hin', haddr', fun hne => ?_⟩
      obtain ⟨e', hmem', hslot, hold⟩ := hentry hne
      -- In another slot there is another key, whose value has not changed.
      have hkey : e'.key ≠ e.key := by
        intro heq
        exact hat (by rw [← hslot, heq])
      exact ⟨e', hmem', hslot, (hagree _ hkey).trans hold⟩
  · intro other hne
    refine ⟨SameView.refl _, rfl, id, rfl, ?_⟩
    rintro o ⟨hino, at_, record', hrecord, hne', haddr'⟩
    dsimp only at hrecord
    by_cases hat : at_ = keySlot cfg e.key
    · -- The new record points into `rid`, and a code is the code of one region only.
      rw [hat, update_self, some.injEq] at hrecord
      subst hrecord
      have heq := hino.encode_inj hin (haddr' ▸ hne') (haddr'.symm.trans haddr)
      exact absurd (congrArg RelAddress.rid heq) hne
    · rw [update_of_ne hat] at hrecord
      exact ⟨hino, at_, record', hrecord, hne', haddr'⟩

/-- **A move in one region.** The others are as they were, and so are their bytes. -/
theorem Coherent.touch
    (hother : ∀ other, other ≠ rid → s'.regions other = s.regions other)
    (hlayout : ∀ other, other ≠ rid → layout' other = layout other)
    (hdevice : ∀ other, other ≠ rid → ∀ i < cfg.regionSize,
      onDevice cfg s.device other i = onDevice cfg s'.device other i)
    (hregion : RegionOk cfg (contents cfg s' rid) (layout' rid) rid (s'.regions rid))
    (hclean : ∀ other, other ≠ rid → other ∈ s'.cleanRegions → other ∈ s.cleanRegions)
    (hcleanRid : rid ∈ s'.cleanRegions → CleanOk cfg s' rid) (hnodup : s'.cleanRegions.Nodup)
    (htracked : ∀ other, other ≠ rid → s'.tracked other = s.tracked other)
    (htrackedRid : s'.tracked rid = true →
      rid < cfg.numRegions ∧ (s'.regions rid).buffer = none)
    (hindex : s'.index = s.index)
    (hpoints : ∀ at_ record, s.index at_ = some record →
      Points cfg latest layout' at_ record) :
    Touches cfg latest rid s layout s' layout' := by
  refine ⟨⟨?_, ?_, hnodup, ?_, hindex ▸ hpoints⟩, ?_⟩
  · intro other
    by_cases hne : other = rid
    · exact hne ▸ hregion
    · rw [hlayout other hne, hother other hne]
      -- Another region reads what it read, from its buffer or from its part of the device.
      apply (h.region other).congr
      intro i hi
      simp only [contents, hother other hne]
      split
      · exact hdevice other hne i hi
      · rfl
  · intro other hmem
    by_cases hne : other = rid
    · exact hne ▸ hcleanRid (hne ▸ hmem)
    · have hold := h.clean other (hclean other hne hmem)
      have hsame := hother other hne
      exact {
        lt := hold.lt
        tracked := (htracked other hne).trans hold.tracked
        buffer := hsame ▸ hold.buffer
        flushed := hsame ▸ hold.flushed
        empty := hsame ▸ hold.empty }
  · intro other htrue
    by_cases hne : other = rid
    · exact hne ▸ htrackedRid (hne ▸ htrue)
    · rw [hother other hne]
      exact h.tracked other (htracked other hne ▸ htrue)
  · intro other hne
    exact {
      region := hother other hne ▸ SameView.refl _
      layout := hlayout other hne
      clean := hclean other hne
      tracked := htracked other hne
      indexed := fun off hoff => hindex ▸ hoff }

/-- **A region no record points into may be emptied.** -/
theorem Coherent.release (hrid : rid < cfg.numRegions)
    (hindexed : ∀ off, ¬ Indexed cfg s.index rid off) (hclean : rid ∉ s.cleanRegions)
    (htracked : s.tracked rid = false) (hindex' : s'.index = s.index)
    (hdevice' : s'.device = s.device) (hclean' : s'.cleanRegions = rid :: s.cleanRegions)
    (htracked' : s'.tracked = s.tracked) (hregion : s'.regions rid = {})
    (hother : ∀ other, other ≠ rid → s'.regions other = s.regions other) :
    Touches cfg latest rid s layout s' (update layout rid []) := by
  apply h.touch hother
  case hlayout => exact fun other hne => update_of_ne hne ..
  case hdevice => exact fun other _ i _ => hdevice' ▸ rfl
  case hregion =>
    rw [hregion, update_self]
    exact ⟨rfl, Nat.zero_le _, fun _ => rfl, rfl, rfl, fun hbuffer => by cases hbuffer⟩
  case hclean => exact fun other hne hmem => mem_of_ne_of_mem hne (hclean' ▸ hmem)
  case hcleanRid =>
    intro _
    exact ⟨hrid, htracked' ▸ htracked, hregion ▸ rfl, hregion ▸ rfl, hregion ▸ rfl⟩
  case hnodup => exact hclean' ▸ nodup_cons.mpr ⟨hclean, h.nodup⟩
  case htracked => exact fun other _ => congrFun htracked' other
  case htrackedRid =>
    rw [htracked', htracked]
    exact fun htrue => by cases htrue
  case hindex => exact hindex'
  case hpoints =>
    intro at_ record hrecord
    obtain ⟨addr, hin, haddr, hentry⟩ := h.points at_ record hrecord
    refine ⟨addr, hin, haddr, fun hne => ?_⟩
    obtain ⟨e, hmem, hslot, hlatest⟩ := hentry hne
    -- The entry a record points to is not in the region that is emptied.
    have hridne : addr.rid ≠ rid := by
      rintro rfl
      exact hindexed addr.offset ⟨hin, at_, record, hrecord, hne, haddr⟩
    refine ⟨e, ?_, hslot, hlatest⟩
    rw [update_of_ne hridne]
    exact hmem

/-- **A clean region may take a buffer**, whatever is in it. -/
theorem Coherent.attach {rest : List RegionId}
    (hclean : s.cleanRegions = rid :: rest) (hindex' : s'.index = s.index)
    (hdevice' : s'.device = s.device) (hclean' : s'.cleanRegions = rest)
    (htracked' : s'.tracked = s.tracked)
    (hregion : s'.regions rid = (s.regions rid).attachBuffer data)
    (hother : ∀ other, other ≠ rid → s'.regions other = s.regions other) :
    Touches cfg latest rid s layout s' layout := by
  have hok : CleanOk cfg s rid := h.clean rid (hclean ▸ mem_cons_self)
  have hnodup : rid ∉ rest ∧ rest.Nodup := nodup_cons.mp (hclean ▸ h.nodup)
  apply h.touch hother
  case hlayout => exact fun _ _ => rfl
  case hdevice => exact fun other _ i _ => hdevice' ▸ rfl
  case hregion =>
    -- A clean region has no entries, so it does not matter what the buffer holds.
    have hlaid := (h.region rid).laid
    rw [hok.empty] at hlaid
    rw [hregion]
    exact {
      laid := by
        rw [Region.attachBuffer, hok.empty]
        exact hlaid.congr fun i hi => absurd hi (Nat.not_lt_zero i)
      full := (h.region rid).full
      items := (h.region rid).items
      access := (h.region rid).access
      cleanedup := (h.region rid).cleanedup
      buffered := fun _ => ⟨hok.flushed, hok.lt⟩ }
  case hclean => exact fun other _ hmem => hclean ▸ mem_cons_of_mem _ (hclean' ▸ hmem)
  case hcleanRid => exact fun hmem => absurd (hclean' ▸ hmem) hnodup.1
  case hnodup => exact hclean' ▸ hnodup.2
  case htracked => exact fun other _ => congrFun htracked' other
  case htrackedRid =>
    rw [htracked', hok.tracked]
    exact fun htrue => by cases htrue
  case hindex => exact hindex'
  case hpoints => exact h.points

omit h in
/-- The regions lie apart on the device. -/
theorem physicalOffset_apart {other : RegionId} {i : ℕ} (hne : other ≠ rid)
    (hi : i < cfg.regionSize) :
    physicalOffset cfg ⟨other, 0⟩ + i < physicalOffset cfg ⟨rid, 0⟩ ∨
      physicalOffset cfg ⟨rid, 0⟩ + cfg.regionSize ≤ physicalOffset cfg ⟨other, 0⟩ + i := by
  have hstep : ∀ a b : ℕ, a < b → a * cfg.regionSize + cfg.regionSize ≤ b * cfg.regionSize := by
    intro a b hab
    calc a * cfg.regionSize + cfg.regionSize
        = (a + 1) * cfg.regionSize := by ring
      _ ≤ b * cfg.regionSize := Nat.mul_le_mul_right _ hab
  simp only [physicalOffset, toAbsolute]
  rcases Nat.lt_or_gt_of_ne hne with hlt | hgt
  · have h := hstep _ _ hlt
    omega
  · have h := hstep _ _ hgt
    omega

/-- **A buffer may be written to the device.** What a reader of the region sees does
not change; where it sees it does. -/
theorem Coherent.flush
    (hbuffer : (s.regions rid).buffer = some data) (hindex' : s'.index = s.index)
    (hdevice' : s'.device
      = copy s.device (physicalOffset cfg ⟨rid, 0⟩) data cfg.regionSize)
    (hclean' : s'.cleanRegions = s.cleanRegions)
    (htracked' : s'.tracked = update s.tracked rid true)
    (hregion : s'.regions rid = (s.regions rid).setFlushed.detachBuffer)
    (hother : ∀ other, other ≠ rid → s'.regions other = s.regions other) :
    Touches cfg latest rid s layout s' layout := by
  obtain ⟨hflushed, hlt⟩ := (h.region rid).buffered (hbuffer ▸ rfl)
  have hnone : (s'.regions rid).buffer = none := by
    rw [hregion]
    rfl
  apply h.touch hother
  case hlayout => exact fun _ _ => rfl
  case hdevice =>
    intro other hne i hi
    rw [hdevice']
    exact (copy_of_outside (physicalOffset_apart hne hi)).symm
  case hregion =>
    have hold := h.region rid
    rw [contents_of_buffer hbuffer hflushed] at hold
    -- The region on the device has the bytes of the buffer from here on.
    have hnew := hold.congr (fun i hi => by
      rw [onDevice, hdevice', copy_of_mem hi] :
      ∀ i < cfg.regionSize, data i = onDevice cfg s'.device rid i)
    rw [contents_of_none hnone]
    exact {
      laid := hregion ▸ hnew.laid
      full := hregion ▸ hnew.full
      items := hregion ▸ hnew.items
      access := hregion ▸ hnew.access
      cleanedup := hregion ▸ hnew.cleanedup
      buffered := by
        rw [hnone]
        exact fun hsome => by cases hsome }
  case hclean => exact fun other _ hmem => hclean' ▸ hmem
  case hcleanRid =>
    intro hmem
    have hclean := (h.clean rid (hclean' ▸ hmem)).buffer
    rw [hbuffer] at hclean
    cases hclean
  case hnodup => exact hclean' ▸ h.nodup
  case htracked =>
    intro other hne
    rw [htracked', update_of_ne hne]
  case htrackedRid => exact fun _ => ⟨hlt, hnone⟩
  case hindex => exact hindex'
  case hpoints => exact h.points

omit h in
/-- The slot `openAndAllocate` gives starts where the last entry ends. -/
theorem openAndAllocate_spec {r region : Region Memory} {size offset : ℕ}
    (hfull : r.lastEntryEndOffset ≤ cfg.regionSize) (hsize : size ≤ cfg.regionSize)
    (halloc : r.openAndAllocate cfg.regionSize size = some (offset, region)) :
    offset = r.lastEntryEndOffset ∧ offset + size ≤ cfg.regionSize ∧
      region = { r with
        activeWriters := r.activeWriters + 1
        lastEntryEndOffset := offset + size
        numItems := r.numItems + 1 } := by
  have hregion := cfg.regionSize_le_pow
  have hmod : (r.lastEntryEndOffset + size) % 2 ^ 32 = r.lastEntryEndOffset + size :=
    Nat.mod_eq_of_lt (by omega)
  rw [Region.openAndAllocate] at halloc
  split at halloc
  · next hcan =>
    rw [Region.canAllocate, decide_eq_true_eq, hmod] at hcan
    obtain ⟨rfl, rfl⟩ := halloc
    exact ⟨rfl, hcan, by rw [hmod]⟩
  · cases halloc

/-- **An entry may be written to a slot that was allocated for it.** -/
theorem Coherent.writeSlot {size offset : ℕ}
    {key value : List UInt8} {time : UInt32} {region : Region Memory}
    (hsize : serializedSize cfg key.length value.length = size) (hle : size ≤ cfg.regionSize)
    (halloc : (s.regions rid).openAndAllocate cfg.regionSize size = some (offset, region))
    (hwrite : writeSlot cfg (s.setRegion rid region) rid offset size key value time = some s') :
    Touches cfg latest rid s layout s'
        (update layout rid ((offset + size, ⟨key, value⟩) :: layout rid))
      ∧ InRange cfg ⟨rid, offset + size⟩ ∧ ¬ Idle s rid ∧ s'.index = s.index := by
  have hold := h.region rid
  obtain ⟨hoffset, hfull, hregion⟩ := openAndAllocate_spec hold.full hle halloc
  rw [BlockCache.writeSlot, State.setRegion_self] at hwrite
  obtain ⟨data, hdata, hmap⟩ := bind_eq_some_iff.mp hwrite
  obtain ⟨data', hdata', hs'⟩ := map_eq_some_iff.mp hmap
  have hbuffer : (s.regions rid).buffer = some data := by
    rw [hregion] at hdata
    exact hdata
  obtain ⟨hflushed, hlt⟩ := hold.buffered (hbuffer ▸ rfl)
  obtain ⟨hentry, hbefore⟩ := writeEntry_spec hsize hle hdata'
  have hentrySize : Entry.size cfg ⟨key, value⟩ = size := hsize
  have hself : s'.regions rid = { region with buffer := some data' } := by
    rw [← hs', State.setRegion_self]
  have hother : ∀ other, other ≠ rid → s'.regions other = s.regions other := by
    intro other hne
    rw [← hs', State.setRegion_of_ne _ hne, State.setRegion_of_ne _ hne]
  -- The new entry lies behind the old ones, whose bytes are as they were.
  have hlaid : Laid cfg data' ((offset + size, ⟨key, value⟩) :: layout rid) (offset + size) := by
    refine ⟨rfl, hentry, ?_⟩
    rw [hentrySize, Nat.add_sub_cancel]
    have hlaid := hold.laid
    rw [contents_of_buffer hbuffer hflushed, ← hoffset] at hlaid
    exact hlaid.congr fun i hi => (hbefore i hi).symm
  have hidle : ¬ Idle s rid := by
    intro hidle
    rw [hidle.buffer] at hbuffer
    cases hbuffer
  refine ⟨?_, ⟨hlt, ?_, hfull, hlaid.aligned⟩, hidle, by rw [← hs']; rfl⟩
  · apply h.touch hother
    case hlayout => exact fun other hne => update_of_ne hne ..
    case hdevice => exact fun other _ i _ => hs' ▸ rfl
    case hregion =>
      have hsome : (s'.regions rid).buffer = some data' := by rw [hself]
      have hfl : (s'.regions rid).flushed = false := by rw [hself, hregion]; exact hflushed
      rw [contents_of_buffer hsome hfl, update_self, hself, hregion]
      exact {
        laid := hlaid
        full := hfull
        items := fun hzero => absurd hzero (Nat.succ_ne_zero _)
        access := hold.access
        cleanedup := hold.cleanedup
        buffered := fun _ => ⟨hflushed, hlt⟩ }
    case hclean => exact fun other _ hmem => by rw [← hs'] at hmem; exact hmem
    case hcleanRid =>
      intro hmem
      rw [← hs'] at hmem
      have hclean := (h.clean rid hmem).buffer
      rw [hbuffer] at hclean
      cases hclean
    case hnodup => exact hs' ▸ h.nodup
    case htracked => exact fun other _ => hs' ▸ rfl
    case htrackedRid =>
      intro htrue
      rw [← hs'] at htrue
      have hnone := (h.tracked rid htrue).2
      rw [hbuffer] at hnone
      cases hnone
    case hindex => rw [← hs']; rfl
    case hpoints =>
      intro at_ record hrecord
      apply (h.points at_ record hrecord).mono
      intro other
      by_cases hne : other = rid
      · rw [hne, update_self]
        exact subset_cons_self _ _
      · rw [update_of_ne hne]
        exact Subset.refl _
  · have hpos := hentry.pos
    rw [hentrySize] at hpos
    exact Nat.add_pos_right _ hpos

end Rules

end CacheLib.Navy.BlockCache
