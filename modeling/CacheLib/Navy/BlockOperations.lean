/-
The operations of a `BlockCache` keep it coherent.

One lemma per function of the model, each put together from the moves. The two walks
carry the same invariant, that a record into the region points to an entry the walk
still has to visit: the cleanup after a failed flush drops each record as it comes to
its entry, the reclaim drops it or moves it to a copy. A walk that ends has left no
record behind, and the region may be emptied.
-/
import CacheLib.Navy.BlockCoherence

set_option autoImplicit false

namespace CacheLib.Navy.BlockCache

open Bytes Function List Option

variable {cfg : Config} {s s' s₁ : State} {latest : Latest} {layout : Layout} {rid : RegionId}
  {off : ℕ} {e : Entry} {key value : List UInt8} {status : Status} {got : Allocated}
  (h : Coherent cfg s latest layout)

include h

/-! ## Flushing -/

/-- Nothing points into a region once the cleanup has walked through it. -/
theorem Coherent.onRegionCleanup
    (hrid : rid < cfg.numRegions) {index : Index}
    (hwalk : onRegionCleanup cfg rid (s.regions rid).lastEntryEndOffset (contents cfg s rid)
      s.index = some index) :
    SubIndex index s.index ∧ ∀ off, ¬ Indexed cfg index rid off := by
  have hend := forEachEntry_rule
    (P := fun rest index => SubIndex index s.index ∧ (∀ x ∈ rest, x ∈ layout rid) ∧
      ∀ off, Indexed cfg index rid off → ∃ e, (off, e) ∈ rest)
    ?_ (h.region rid).laid le_rfl hwalk
    ⟨SubIndex.refl _, fun _ => id, fun _ => h.entry_of_indexed⟩
  · obtain ⟨hsub, -, hindexed⟩ := hend
    refine ⟨hsub, fun off hoff => ?_⟩
    obtain ⟨e, hmem⟩ := hindexed off hoff
    cases hmem
  · -- One visit: its own entry is dropped from what is indexed, the others stay in the rest.
    rintro o e rest index index' - ⟨hsub, hrest, hindexed⟩ hvisit
    rw [some.injEq] at hvisit
    subst hvisit
    refine ⟨(removeItem_sub _ _ _).trans hsub, fun x hx => hrest x (mem_cons_of_mem _ hx), ?_⟩
    intro off hoff
    obtain ⟨d, hmem⟩ := hindexed off (hoff.of_sub (removeItem_sub _ _ _))
    rcases mem_cons.mp hmem with heq | hmem
    · -- The entry just visited is the one its record was dropped for.
      obtain ⟨rfl, rfl⟩ := heq
      exact absurd hoff ((h.subIndex hsub).removeItem_not_indexed hrid
        (hrest _ mem_cons_self))
    · exact ⟨d, hmem⟩

theorem Coherent.doFlushInternal {written : Bool}
    (hflush : doFlushInternal cfg s rid written = some s') :
    ∃ layout', Moves cfg latest s layout s' layout' := by
  simp only [BlockCache.doFlushInternal] at hflush
  split at hflush
  · cases hflush
  next data hbuffer =>
  have hold := h.region rid
  obtain ⟨hflushed, hrid⟩ := hold.buffered (hbuffer ▸ rfl)
  have hidle : ¬ Idle s rid := by
    intro hidle
    rw [hidle.buffer] at hbuffer
    cases hbuffer
  split at hflush
  · cases hflush
  split at hflush
  · rw [hflushed, some.injEq] at hflush
    subst hflush
    exact ⟨layout, Touches.moves (h.flush hbuffer rfl rfl rfl rfl (State.setRegion_self ..)
      fun other hne => State.setRegion_of_ne _ hne) hidle⟩
  · rw [hold.cleanedup] at hflush
    obtain ⟨index, hindex, hs'⟩ := map_eq_some_iff.mp hflush
    have hwalk : BlockCache.onRegionCleanup cfg rid (s.regions rid).lastEntryEndOffset
        (contents cfg s rid) s.index = some index := by
      rw [contents_of_buffer hbuffer hflushed]
      exact hindex
    obtain ⟨hsub, hindexed⟩ := h.onRegionCleanup hrid hwalk
    -- With a buffer attached the region is neither clean nor tracked.
    have hclean : rid ∉ s.cleanRegions := by
      intro hmem
      have hnone := (h.clean rid hmem).buffer
      rw [hbuffer] at hnone
      cases hnone
    have htracked : s.tracked rid = false := by
      refine Bool.eq_false_iff.mpr fun htrue => ?_
      have hnone := (h.tracked rid htrue).2
      rw [hbuffer] at hnone
      cases hnone
    have hregion : s'.regions rid = {} := by
      rw [← hs']
      simp only [releaseRegion, State.setRegion_self]
      rfl
    have hother : ∀ other, other ≠ rid → s'.regions other = s.regions other := by
      intro other hne
      rw [← hs']
      simp only [releaseRegion, State.setRegion_of_ne _ hne]
    -- First the records go, then the region is emptied.
    have hempty := (h.subIndex hsub).release hrid hindexed hclean htracked
      (hs' ▸ rfl) (hs' ▸ rfl) (hs' ▸ rfl) (hs' ▸ rfl) hregion hother
    exact ⟨_, (h.subIndex_moves hsub).trans (hempty.moves fun hidle' =>
      hidle ⟨hidle'.buffer, hidle'.clean, hidle'.tracked⟩)⟩

theorem Coherent.doFlush {onWorker written : Bool}
    (hflush : doFlush cfg s rid onWorker written = some s') :
    ∃ layout', Moves cfg latest s layout s' layout' := by
  have hpending : SameView (s.regions rid) (s.regions rid).setPendingFlush :=
    ⟨rfl, rfl, rfl, rfl, rfl, rfl⟩
  rw [BlockCache.doFlush] at hflush
  split at hflush
  · have hset : Moves cfg latest s layout (s.setRegion rid (s.regions rid).setPendingFlush) layout :=
      h.sameView_moves rfl rfl rfl rfl hpending.setRegion
    obtain ⟨layout', hmoves⟩ := hset.1.doFlushInternal hflush
    exact ⟨layout', hset.trans hmoves⟩
  · rw [some.injEq] at hflush
    subst hflush
    exact ⟨layout, h.sameView_moves rfl rfl rfl rfl hpending.setRegion⟩

/-! ## Allocating -/

theorem Coherent.getCleanRegion {addWaiter : Bool}
    {found : Option RegionId} (hclean : getCleanRegion cfg s addWaiter = (found, s')) :
    Moves cfg latest s layout s' layout := by
  rw [BlockCache.getCleanRegion] at hclean
  split at hclean
  · obtain ⟨-, rfl⟩ := Prod.mk.inj hclean
    exact Moves.refl h
  split at hclean
  · next hnil =>
    obtain ⟨-, rfl⟩ := Prod.mk.inj hclean
    exact h.sameView_moves rfl rfl (by rw [hnil]; rfl) rfl fun _ => SameView.refl _
  next rid rest hcons =>
  split at hclean
  · -- No buffer is free, and the region goes back to where it was taken from.
    obtain ⟨-, rfl⟩ := Prod.mk.inj hclean
    exact h.sameView_moves rfl rfl (by rw [hcons]; rfl) rfl fun _ => SameView.refl _
  · obtain ⟨-, rfl⟩ := Prod.mk.inj hclean
    have hidle : ¬ Idle s rid := fun hidle => hidle.clean (hcons ▸ mem_cons_self)
    have hrest : s.cleanRegions.tail = rest := by rw [hcons, tail_cons]
    exact Touches.moves (h.attach hcons rfl rfl hrest rfl (State.setRegion_self ..)
      fun other hne => State.setRegion_of_ne _ hne) hidle

/-- What an allocation of `size` bytes in `s` leaves. -/
def Reserved (cfg : Config) (s : State) (size : ℕ) : Allocated → State → Prop
  | .ready rid offset, s' => size ≤ cfg.regionSize ∧ ∃ region,
      (s.regions rid).openAndAllocate cfg.regionSize size = some (offset, region) ∧
        s' = s.setRegion rid region
  | .error, s' => s' = s
  | .retry, s' => s' = s

theorem Coherent.allocateFresh {priority i size : ℕ}
    {addWaiter : Bool} (hle : size ≤ cfg.regionSize)
    (halloc : allocateFresh cfg s priority i size addWaiter = (got, s')) :
    ∃ s₀, Moves cfg latest s layout s₀ layout ∧ Reserved cfg s₀ size got s' := by
  rw [BlockCache.allocateFresh] at halloc
  split at halloc
  · next s₁ hclean =>
    obtain ⟨rfl, rfl⟩ := halloc
    exact ⟨_, h.getCleanRegion hclean, rfl⟩
  next rid s₁ hclean =>
  have hmoves := h.getCleanRegion hclean
  -- The region is the allocator's now, and has its priority.
  have hset : Moves cfg latest s₁ layout ((s₁.setAllocator priority i (some rid)).setRegion rid
      { s₁.regions rid with priority := priority }) layout :=
    hmoves.1.sameView_moves rfl rfl rfl rfl
      (SameView.setRegion ⟨rfl, rfl, rfl, rfl, rfl, rfl⟩)
  refine ⟨_, hmoves.trans hset, ?_⟩
  dsimp only at halloc
  split at halloc
  · obtain ⟨rfl, rfl⟩ := halloc
    rfl
  · next offset region hregion =>
    obtain ⟨rfl, rfl⟩ := halloc
    refine ⟨hle, region, ?_, ?_⟩
    · rw [State.setRegion_self]
      exact hregion
    · simp only [State.setRegion, update_idem]

theorem Coherent.allocate {size priority distKey : ℕ}
    {addWaiter onWorker written : Bool}
    (halloc : allocate cfg s size priority distKey addWaiter onWorker written
      = some (got, s')) :
    ∃ s₀ layout₀, Moves cfg latest s layout s₀ layout₀ ∧ Reserved cfg s₀ size got s' := by
  rw [BlockCache.allocate] at halloc
  split at halloc
  · obtain ⟨rfl, rfl⟩ := halloc
    exact ⟨s, layout, Moves.refl h, rfl⟩
  next hsize =>
  have hle : size ≤ cfg.regionSize := Nat.not_lt.mp fun hlt => hsize (.inr hlt)
  split at halloc
  · cases halloc
  next count _ =>
  -- The allocator fills a region already, or has none.
  rw [allocateWith] at halloc
  split at halloc
  · obtain ⟨s₀, hmoves, hgot⟩ := h.allocateFresh hle (some.inj halloc)
    exact ⟨s₀, layout, hmoves, hgot⟩
  next rid _ =>
  split at halloc
  · next offset region hregion =>
    obtain ⟨rfl, rfl⟩ := halloc
    exact ⟨s, layout, Moves.refl h, hle, region, hregion, rfl⟩
  · -- The region is full: it is flushed, and the allocator goes on without one.
    obtain ⟨s₁, hflush, hfresh⟩ := map_eq_some_iff.mp halloc
    obtain ⟨layout₁, hmoves⟩ := h.doFlush hflush
    have hset : Moves cfg latest s₁ layout₁ (s₁.setAllocator priority (distKey % count) none)
        layout₁ :=
      hmoves.1.sameView_moves rfl rfl rfl rfl fun _ => SameView.refl _
    obtain ⟨s₀, hfreshMoves, hgot⟩ := hset.1.allocateFresh hle hfresh
    exact ⟨s₀, layout₁, (hmoves.trans hset).trans hfreshMoves, hgot⟩

theorem Coherent.allocate_refused {size priority distKey : ℕ}
    {addWaiter onWorker written : Bool}
    (halloc : BlockCache.allocate cfg s size priority distKey addWaiter onWorker written
      = some (got, s')) (hgot : got = .error ∨ got = .retry) :
    ∃ layout', Moves cfg latest s layout s' layout' := by
  obtain ⟨s₀, layout₀, hmoves, hreserved⟩ := h.allocate halloc
  rcases hgot with rfl | rfl
  · obtain rfl : s' = s₀ := hreserved
    exact ⟨layout₀, hmoves⟩
  · obtain rfl : s' = s₀ := hreserved
    exact ⟨layout₀, hmoves⟩

/-- An entry written to the slot that was allocated for it. -/
theorem Coherent.writeReserved {offset : ℕ}
    {key value : List UInt8} {time : UInt32}
    (hgot : Reserved cfg s (serializedSize cfg key.length value.length) (.ready rid offset) s₁)
    (hwrite : BlockCache.writeSlot cfg s₁ rid offset (serializedSize cfg key.length value.length)
      key value time = some s') :
    ∃ layout', Touches cfg latest rid s layout s' layout' ∧
      (offset + serializedSize cfg key.length value.length, ⟨key, value⟩) ∈ layout' rid ∧
      InRange cfg ⟨rid, offset + serializedSize cfg key.length value.length⟩ ∧
      ¬ Idle s rid ∧ s'.index = s.index := by
  obtain ⟨hle, region, hregion, rfl⟩ := hgot
  obtain ⟨hwritten, hin, hidle, hindex⟩ := h.writeSlot rfl hle hregion hwrite
  refine ⟨_, hwritten, ?_, hin, hidle, hindex⟩
  rw [update_self]
  exact mem_cons_self

/-! ## `insert`, `lookup` and `remove` -/

omit h in
theorem sameView_close (r : Region Memory) : ∀ mode, SameView r (r.close mode)
  | .write => ⟨rfl, rfl, rfl, rfl, rfl, rfl⟩
  | .read true => ⟨rfl, rfl, rfl, rfl, rfl, rfl⟩
  | .read false => ⟨rfl, rfl, rfl, rfl, rfl, rfl⟩

theorem Coherent.close_moves (rid : RegionId)
    (mode : OpenMode) : Moves cfg latest s layout (s.close rid mode) layout :=
  h.sameView_moves rfl rfl rfl rfl (sameView_close _ mode).setRegion

theorem Coherent.updateIndex {offset size : ℕ}
    (hin : InRange cfg ⟨rid, offset + size⟩) (hmem : (offset + size, e) ∈ layout rid) :
    Coherent cfg (updateIndex cfg s e.key size ⟨rid, offset⟩)
      (update latest e.key (some e.value)) layout := by
  have haddr : ({ address := encodeRelAddress cfg ⟨rid, offset + size⟩
                  sizeHint := encodeSizeHint size } : ItemRecord).address
      = encodeRelAddress cfg ⟨rid, offset + size⟩ := rfl
  exact (h.point hin hmem haddr (update_self ..)
    fun other hne => update_of_ne hne ..).1

/-- **An insert gives its key the new value**, or leaves every key what it had. -/
theorem Coherent.insert {key value : List UInt8}
    {time : UInt32} {onNavyThread : Bool}
    (hinsert : insert cfg s key value time onNavyThread = some (status, s')) :
    ∃ layout', Coherent cfg s'
      (if status = .ok then update latest key (some value) else latest) layout' := by
  rw [BlockCache.insert] at hinsert
  split at hinsert
  · obtain ⟨rfl, rfl⟩ := hinsert
    exact ⟨layout, h⟩
  split at hinsert
  · cases hinsert
  · next s₁ halloc =>
    obtain ⟨rfl, rfl⟩ := hinsert
    obtain ⟨layout₀, hmoves⟩ := h.allocate_refused halloc (.inl rfl)
    exact ⟨layout₀, hmoves.1⟩
  · next s₁ halloc =>
    obtain ⟨rfl, rfl⟩ := hinsert
    obtain ⟨layout₀, hmoves⟩ := h.allocate_refused halloc (.inr rfl)
    exact ⟨layout₀, hmoves.1⟩
  · next rid offset s₁ halloc =>
    obtain ⟨s₂, hwrite, hdone⟩ := map_eq_some_iff.mp hinsert
    obtain ⟨rfl, rfl⟩ := hdone
    obtain ⟨s₀, layout₀, hmoves, hgot⟩ := h.allocate halloc
    obtain ⟨layout', hwritten, hmem, hin, -, -⟩ := hmoves.1.writeReserved hgot hwrite
    exact ⟨layout', ((hwritten.1.updateIndex hin hmem).close_moves rid .write).1⟩

/-- The slot of a key holds no entry of it, and the key may count as removed. -/
theorem Coherent.forget
    (hslot : ∀ record, s.index (keySlot cfg key) = some record → ∃ addr, InRange cfg addr ∧
      record.address = encodeRelAddress cfg addr ∧ ∃ e, (addr.offset, e) ∈ layout addr.rid ∧
        keySlot cfg e.key = keySlot cfg key ∧ e.key ≠ key ∧ latest e.key = some e.value) :
    Coherent cfg s (update latest key none) layout := by
  show Coherent cfg { s with index := s.index } (update latest key none) layout
  apply h.reindex
  intro at_ record hrecord
  -- Only the slot of the key can hold an entry of the key.
  by_cases hat : at_ = keySlot cfg key
  · subst hat
    obtain ⟨addr, hin, haddr, e, hmem, heslot, hne, hlatest⟩ := hslot record hrecord
    refine ⟨addr, hin, haddr, fun _ => ⟨e, hmem, heslot, ?_⟩⟩
    rw [update_of_ne hne]
    exact hlatest
  · obtain ⟨addr, hin, haddr, hentry⟩ := h.points at_ record hrecord
    refine ⟨addr, hin, haddr, fun hzero => ?_⟩
    obtain ⟨e, hmem, heslot, hlatest⟩ := hentry hzero
    have hne : e.key ≠ key := by
      rintro rfl
      exact hat heslot.symm
    refine ⟨e, hmem, heslot, ?_⟩
    rw [update_of_ne hne]
    exact hlatest

/-- What `openEntry` comes to: a region that is open for reading, at an entry of the
slot. -/
def Found (cfg : Config) (s : State) (latest : Latest) (layout : Layout) (key : List UInt8) :
    Opened → Prop
  | .notFound => s.index (keySlot cfg key) = none
  | .retry => False
  | .ready addrEnd _ physReadMode =>
      physReadMode = (s.regions addrEnd.rid).physReadMode ∧
        ∃ record, s.index (keySlot cfg key) = some record ∧ InRange cfg addrEnd ∧
          record.address = encodeRelAddress cfg addrEnd ∧
          ∃ e, (addrEnd.offset, e) ∈ layout addrEnd.rid ∧
            keySlot cfg e.key = keySlot cfg key ∧ latest e.key = some e.value

omit h in
theorem openForRead_of_access {r : Region Memory} (h : r.blockAccess = false) :
    ∃ r', r.openForRead = some (r.physReadMode, r') ∧ SameView r r' := by
  rw [Region.openForRead, h, if_neg Bool.false_ne_true]
  cases r.physReadMode
  · exact ⟨_, rfl, ⟨rfl, rfl, rfl, rfl, h.symm, rfl⟩⟩
  · exact ⟨_, rfl, ⟨rfl, rfl, rfl, rfl, h.symm, rfl⟩⟩

theorem Coherent.openEntry
    {retryIndex : ℕ} {opened : Opened}
    (hopen : openEntry cfg key retryIndex s = some (opened, s')) :
    Coherent cfg s' latest layout ∧ Found cfg s' latest layout key opened := by
  rw [BlockCache.openEntry.eq_def] at hopen
  dsimp only at hopen
  split at hopen
  · next hnone =>
    obtain ⟨rfl, rfl⟩ := hopen
    exact ⟨h, hnone⟩
  next record hrecord =>
  split at hopen
  · next hlt =>
    -- The region exists, so the code is not 0 and is decoded to the address it was made from.
    obtain ⟨hne, -⟩ := h.address_of_decode hlt hrecord rfl
    obtain ⟨addr, hin, haddr, hentry⟩ := h.points _ record hrecord
    have hdecode : decodeRelAddress cfg record.address = addr := by
      rw [haddr]
      exact hin.decode_encode (haddr ▸ hne)
    rw [hdecode] at hopen
    -- No region is closed to readers, so the first try succeeds.
    obtain ⟨region, hread, hview⟩ := openForRead_of_access (h.region addr.rid).access
    rw [hread] at hopen
    obtain ⟨rfl, rfl⟩ := hopen
    have hhit := h.subIndex (Index.hit_sub s.index (keySlot cfg key))
    have hopened : Coherent cfg
        ({ s with index := s.index.hit (keySlot cfg key) }.setRegion addr.rid region)
        latest layout :=
      hhit.of_sameView rfl rfl rfl (fun _ => id) hview.setRegion
    refine ⟨hopened, ?_, { record with currentHits := safeInc record.currentHits }, ?_, hin,
      haddr, hentry hne⟩
    · rw [State.setRegion_self, Region.physReadMode, Region.physReadMode, hview.flushed,
        hview.buffer]
    · simp only [State.setRegion, Index.hit, update_self, hrecord, map_some]
  · cases hopen

/-- **A lookup that returns `Ok` returns what the key was last given.** -/
theorem Coherent.lookup {ld : LookupData}
    (hlookup : lookup cfg s key = some (ld, s')) :
    Coherent cfg s' latest layout ∧
      ((ld.status = .ok ∧ latest key = some ld.value) ∨
        (ld.status = .notFound ∧ Coherent cfg s' (update latest key none) layout)) := by
  rw [BlockCache.lookup] at hlookup
  split at hlookup
  · cases hlookup
  · next s₁ hopen =>
    obtain ⟨rfl, rfl⟩ := hlookup
    obtain ⟨h₁, hnone⟩ := h.openEntry hopen
    refine ⟨h₁, .inr ⟨rfl, h₁.forget fun record hrecord => ?_⟩⟩
    rw [hnone] at hrecord
    cases hrecord
  · next s₁ hopen => exact (h.openEntry hopen).2.elim
  · next addrEnd sizeHint physReadMode s₁ hopen =>
    obtain ⟨h₁, rfl, record, hrecord, hin, haddr, e, hmem, hslot, hlatest⟩ := h.openEntry hopen
    rw [regionRead_physReadMode, bind_some] at hlookup
    obtain ⟨got, hread, hdone⟩ := map_eq_some_iff.mp hlookup
    obtain ⟨rfl, rfl⟩ := hdone
    -- The entry the record points to is in the region, and is what is read.
    have hentry := ((h₁.region addrEnd.rid).laid.entryAt hmem).1
    rcases readEntry_spec hentry hread with ⟨hkey, hok, hvalue⟩ | ⟨hkey, hnotFound⟩
    · rw [if_neg (by rw [hok]; decide)]
      exact ⟨(h₁.close_moves _ _).1, .inl ⟨hok, by rw [hvalue, ← hkey, hlatest]⟩⟩
    · -- Another key of the slot: the record is not about this one.
      have hforget := h₁.forget fun record' hrecord' => by
        rw [hrecord, some.injEq] at hrecord'
        subst hrecord'
        exact ⟨addrEnd, hin, haddr, e, hmem, hslot, hkey, hlatest⟩
      rw [hnotFound, if_neg (by decide)]
      exact ⟨(h₁.close_moves _ _).1, .inr ⟨rfl, (hforget.close_moves _ _).1⟩⟩

theorem Coherent.removeImpl
    (hremove : removeImpl cfg s key = (status, s')) :
    Coherent cfg s' (update latest key none) layout := by
  obtain ⟨-, rfl⟩ := Prod.mk.inj hremove
  refine (h.subIndex (Index.remove_sub s.index (keySlot cfg key))).forget fun record hrecord => ?_
  have hnone : s.index.remove (keySlot cfg key) (keySlot cfg key) = none := update_self ..
  cases hnone.symm.trans hrecord

/-- **After a remove the key has no value**, whatever the remove returned. -/
theorem Coherent.remove
    (hremove : remove cfg s key = some (status, s')) :
    Coherent cfg s' (update latest key none) layout := by
  rw [BlockCache.remove] at hremove
  split at hremove
  · obtain ⟨⟨ld, s₁⟩, hlookup, hdone⟩ := map_eq_some_iff.mp hremove
    obtain ⟨h₁, ⟨hok, -⟩ | ⟨hnotFound, hforget⟩⟩ := h.lookup hlookup
    · simp only [hok] at hdone
      exact h₁.removeImpl hdone
    · simp only [hnotFound] at hdone
      split at hdone
      · -- The index is not asked again; the lookup has shown that it need not be.
        obtain ⟨-, rfl⟩ := Prod.mk.inj hdone
        exact hforget
      · exact h₁.removeImpl hdone
  · exact h.removeImpl (some.inj hremove)

/-! ## Reclaiming -/

/-- One item of a region that is being reclaimed is dealt with: no record points to it
any more, and the region is as it was. -/
structure Evicts (cfg : Config) (latest : Latest) (rid : RegionId) (off : ℕ) (s : State)
    (layout : Layout) (s' : State) (layout' : Layout) : Prop where
  coherent : Coherent cfg s' latest layout'
  beside : Beside cfg rid s layout s' layout'
  gone : ¬ Indexed cfg s'.index rid off

omit h in
theorem Moves.evicts {layout₁ layout' : Layout}
    (h : Moves cfg latest s layout s₁ layout₁) (hidle : Idle s rid)
    (h' : Evicts cfg latest rid off s₁ layout₁ s' layout') :
    Evicts cfg latest rid off s layout s' layout' :=
  ⟨h'.coherent, (h.2 rid hidle).trans h'.beside, h'.gone⟩

omit h in
theorem Evicts.moves {layout₁ layout' : Layout}
    (h : Evicts cfg latest rid off s layout s₁ layout₁) (hidle : Idle s rid)
    (h' : Moves cfg latest s₁ layout₁ s' layout') :
    Evicts cfg latest rid off s layout s' layout' := by
  have hbeside := h'.2 rid (h.beside.idle hidle)
  exact ⟨h'.1, h.beside.trans hbeside, fun hoff => h.gone (hbeside.indexed off hoff)⟩

theorem Coherent.removeItem_evicts
    (hrid : rid < cfg.numRegions) (hmem : (off, e) ∈ layout rid) :
    Evicts cfg latest rid off s layout (s.removeItem cfg e.key ⟨rid, off⟩) layout where
  coherent := h.subIndex (removeItem_sub _ _ _)
  beside := ⟨SameView.refl _, rfl, id, rfl, fun _ => Indexed.of_sub (removeItem_sub _ _ _)⟩
  gone := h.removeItem_not_indexed hrid hmem

omit h in
/-- The same after moves that go on beside the region. -/
theorem Moves.removeItem_evicts {layout₁ : Layout}
    (h : Moves cfg latest s layout s₁ layout₁) (hidle : Idle s rid)
    (hrid : rid < cfg.numRegions) (hmem : (off, e) ∈ layout rid) :
    Evicts cfg latest rid off s layout (s₁.removeItem cfg e.key ⟨rid, off⟩) layout₁ :=
  h.evicts hidle (h.1.removeItem_evicts hrid ((h.2 rid hidle).layout ▸ hmem))

theorem Coherent.point_evicts (hrid : rid < cfg.numRegions)
    (hmem : (off, e) ∈ layout rid) {rid' : RegionId} {off' : ℕ}
    (hne : rid ≠ rid') (hin : InRange cfg ⟨rid', off'⟩)
    (hcopy : (off', ⟨e.key, value⟩) ∈ layout rid') {record : ItemRecord}
    (haddr : record.address = encodeRelAddress cfg ⟨rid', off'⟩) :
    Evicts cfg (update latest e.key (some value)) rid off s layout
      { s with index := update s.index (keySlot cfg e.key) (some record) } layout := by
  obtain ⟨hcoherent, hbeside⟩ := h.point hin hcopy haddr (update_self ..)
    fun other hother => update_of_ne hother ..
  refine ⟨hcoherent, hbeside rid hne, ?_⟩
  -- What points to the item is in the slot of its key, and there the copy's record is.
  rintro ⟨hino, at_, record', hrecord, hzero, haddr'⟩
  obtain ⟨rfl, -⟩ := hcoherent.latest_of_record hrid hmem hrecord hzero haddr'
  dsimp only at hrecord
  rw [update_self, some.injEq] at hrecord
  subst hrecord
  have heq := hino.encode_inj hin (haddr' ▸ hzero) (haddr'.symm.trans haddr)
  exact hne (congrArg RelAddress.rid heq)

omit h in
theorem Index.replaceIfMatch_spec {index index' : Index} {at_ : ℕ × ℕ}
    {newAddress oldAddress : ℕ}
    (hreplace : index.replaceIfMatch at_ newAddress oldAddress = some index') :
    ∃ record : ItemRecord, record.address = newAddress ∧
      index' = update index at_ (some record) := by
  rw [Index.replaceIfMatch, Index.matchesAddress] at hreplace
  cases hrecord : index at_ with
  | none =>
      rw [hrecord] at hreplace
      cases hreplace
  | some record =>
      rw [hrecord] at hreplace
      split at hreplace
      · exact ⟨{ record with address := newAddress, currentHits := 0 }, rfl,
          (some.inj hreplace).symm⟩
      · cases hreplace

/-- **An item that is kept is copied**, and its record moved to the copy or dropped. -/
theorem Coherent.reinsert (hidle : Idle s rid)
    (hrid : rid < cfg.numRegions) (hmem : (off, e) ∈ layout rid)
    {currentHits : ℕ} {written : Bool}
    (hreinsert : reinsert cfg s e.key value ⟨rid, off⟩ currentHits written = some s') :
    ∃ latest' layout', (latest' = latest ∨ latest' = update latest e.key (some value)) ∧
      Evicts cfg latest' rid off s layout s' layout' := by
  rw [BlockCache.reinsert] at hreinsert
  split at hreinsert
  · cases hreinsert
  · next s₁ halloc =>
    obtain ⟨layout₀, hmoves⟩ := h.allocate_refused halloc (.inl rfl)
    exact ⟨latest, layout₀, .inl rfl,
      some.inj hreinsert ▸ hmoves.removeItem_evicts hidle hrid hmem⟩
  · next s₁ halloc =>
    obtain ⟨layout₀, hmoves⟩ := h.allocate_refused halloc (.inr rfl)
    exact ⟨latest, layout₀, .inl rfl,
      some.inj hreinsert ▸ hmoves.removeItem_evicts hidle hrid hmem⟩
  · next rid' offset s₁ halloc =>
    obtain ⟨s₂, hwrite, hdone⟩ := map_eq_some_iff.mp hreinsert
    obtain ⟨s₀, layout₀, hmoves, hgot⟩ := h.allocate halloc
    obtain ⟨layout₂, htouches, hcopy, hin, hbusy, -⟩ := hmoves.1.writeReserved hgot hwrite
    -- The copy goes to a region with a buffer, the item is in one without.
    have hidle₀ : Idle s₀ rid := (hmoves.2 rid hidle).idle hidle
    have hne : rid ≠ rid' := by
      rintro rfl
      exact hbusy hidle₀
    have hcopied := hmoves.trans (htouches.moves hbusy)
    have hmem₂ : (off, e) ∈ layout₂ rid := (hcopied.2 rid hidle).layout ▸ hmem
    rw [← hdone]
    split
    · next index hreplace =>
      obtain ⟨record, haddr, rfl⟩ := Index.replaceIfMatch_spec hreplace
      have hpoint := hcopied.1.point_evicts hrid hmem₂ hne hin hcopy haddr
      have hevicts : Evicts cfg _ rid off s layout _ layout₂ :=
        ⟨hpoint.coherent, (hcopied.2 rid hidle).trans hpoint.beside, hpoint.gone⟩
      exact ⟨_, layout₂, .inr rfl,
        hevicts.moves hidle (hevicts.coherent.close_moves rid' .write)⟩
    · have hevicts := hcopied.removeItem_evicts hidle hrid hmem
      exact ⟨latest, layout₂, .inl rfl,
        hevicts.moves hidle (hevicts.coherent.close_moves rid' .write)⟩

/-- The item that is being visited has no record, or a record and a decision about it that is not
to throw. -/
def Decided (cfg : Config) (s : State) (rid : RegionId) (off : ℕ) (choice : Choice) : Prop :=
  Indexed cfg s.index rid off → choice.decision ≠ .threw

/-- **Each item loses the record that points to it**, as long as neither the expiry check
nor the reinsertion policy throws. -/
theorem Coherent.reinsertOrRemoveItem (hidle : Idle s rid)
    (hrid : rid < cfg.numRegions) (hmem : (off, e) ∈ layout rid) {choice : Choice}
    {desc : EntryDesc} (hdecided : Decided cfg s rid off choice)
    (hitem : reinsertOrRemoveItem cfg s choice desc e.key value ⟨rid, off⟩ = some s') :
    ∃ latest' layout', (value = e.value → latest' = latest) ∧
      Evicts cfg latest' rid off s layout s' layout' := by
  rw [BlockCache.reinsertOrRemoveItem] at hitem
  split at hitem
  · next hnone =>
    rw [some.injEq] at hitem
    subst hitem
    refine ⟨latest, layout, fun _ => rfl, h, Beside.refl ..,
      h.not_indexed_of_peek hrid hmem fun record hrecord => ?_⟩
    rw [hnone] at hrecord
    cases hrecord
  next lr hlr =>
  split at hitem
  · next hdecode =>
    rw [some.injEq] at hitem
    subst hitem
    refine ⟨latest, layout, fun _ => rfl, h, Beside.refl ..,
      h.not_indexed_of_peek hrid hmem fun record hrecord => ?_⟩
    rw [hlr, some.injEq] at hrecord
    exact hrecord ▸ hdecode
  next hdecode =>
  -- The record is the item's: what is decided now is what becomes of it.
  obtain ⟨hne, haddr⟩ := h.address_of_decode hrid hlr (not_ne_iff.mp hdecode)
  have hthrew := hdecided ⟨h.inRange hrid hmem, _, lr, hlr, hne, haddr⟩
  have hremoved := h.removeItem_evicts hrid hmem
  split at hitem
  · next hdecision => exact absurd hdecision hthrew
  · exact ⟨latest, layout, fun _ => rfl, some.inj hitem ▸ hremoved⟩
  · exact ⟨latest, layout, fun _ => rfl, some.inj hitem ▸ hremoved⟩
  split at hitem
  · exact ⟨latest, layout, fun _ => rfl, some.inj hitem ▸ hremoved⟩
  · -- The record points to the item, so the item is what its key was last given.
    obtain ⟨-, hlatest⟩ := h.latest_of_record hrid hmem hlr hne haddr
    obtain ⟨latest', layout', hlatest', hevicts⟩ := h.reinsert hidle hrid hmem hitem
    refine ⟨latest', layout', ?_, hevicts⟩
    rintro rfl
    rcases hlatest' with rfl | rfl
    · rfl
    · rw [← hlatest, update_eq_self]

/-- **A reclaim leaves no record that points into its region**, and does not touch the
region meanwhile. -/
theorem Coherent.onRegionReclaim (hidle : Idle s rid)
    (hrid : rid < cfg.numRegions) {choices : ℕ → Choice}
    (hthrew : ∀ off, (choices off).decision ≠ .threw)
    (hwalk : onRegionReclaim cfg s rid (s.regions rid).lastEntryEndOffset
      (onDevice cfg s.device rid) choices = some s') :
    ∃ layout', Coherent cfg s' latest layout' ∧ Beside cfg rid s layout s' layout' ∧
      ∀ off, ¬ Indexed cfg s'.index rid off := by
  -- The bytes that are walked through are those on the device: an idle region has no buffer.
  have hlaid := (h.region rid).laid
  rw [contents_of_none hidle.buffer] at hlaid
  have hend := forEachEntry_rule
    (P := fun rest t => ∃ layout', Coherent cfg t latest layout' ∧
      Beside cfg rid s layout t layout' ∧ (∀ x ∈ rest, x ∈ layout rid) ∧
      ∀ off, Indexed cfg t.index rid off → ∃ e, (off, e) ∈ rest)
    ?_ hlaid le_rfl hwalk ⟨layout, h, Beside.refl .., fun _ => id, fun _ => h.entry_of_indexed⟩
  · obtain ⟨layout', hcoherent, hbeside, -, hindexed⟩ := hend
    refine ⟨layout', hcoherent, hbeside, fun off hoff => ?_⟩
    obtain ⟨e, hmem⟩ := hindexed off hoff
    cases hmem
  · rintro o e rest t t' - ⟨layout₁, hcoherent, hbeside, hrest, hindexed⟩ hvisit
    have hmem : (o, e) ∈ layout₁ rid := hbeside.layout ▸ hrest _ mem_cons_self
    -- Reinsertions may have changed other regions, but not this one.
    obtain ⟨latest₂, layout₂, hlatest₂, hevicts⟩ := hcoherent.reinsertOrRemoveItem
      (hbeside.idle hidle) hrid hmem (fun _ => hthrew o) hvisit
    obtain rfl := hlatest₂ rfl
    refine ⟨layout₂, hevicts.coherent, hbeside.trans hevicts.beside,
      fun x hx => hrest x (mem_cons_of_mem _ hx), ?_⟩
    intro off hoff
    obtain ⟨d, hd⟩ := hindexed off (hevicts.beside.indexed off hoff)
    rcases mem_cons.mp hd with heq | hd
    · obtain ⟨rfl, rfl⟩ := heq
      -- The item just dealt with has no record any more.
      exact absurd hoff hevicts.gone
    · exact ⟨d, hd⟩

/-- The victim the eviction policy gives up is idle from then on. -/
theorem Coherent.victim (htracked : s.tracked rid = true)
    (hs₁ : { s.setRegion rid ((s.regions rid).readyForReclaim true) with
      tracked := update s.tracked rid false } = s₁) :
    Coherent cfg s₁ latest layout ∧ Idle s₁ rid := by
  have hview : SameView (s.regions rid) ((s.regions rid).readyForReclaim true) :=
    ⟨rfl, rfl, rfl, rfl, rfl, rfl⟩
  subst hs₁
  refine ⟨h.of_sameView rfl rfl rfl ?_ hview.setRegion, ?_, ?_, update_self ..⟩
  · intro other htrue
    by_cases hne : other = rid
    · exact hne ▸ htracked
    · exact (update_of_ne hne ..).symm.trans htrue
  · rw [State.setRegion_self]
    exact (h.tracked rid htracked).2
  · intro hmem
    cases (h.clean rid hmem).tracked.symm.trans htracked

/-- **A reclaim keeps the cache coherent**, as long as nothing throws. -/
theorem Coherent.doReclaim {choices : ℕ → Choice}
    (hthrew : ∀ off, (choices off).decision ≠ .threw)
    (hreclaim : doReclaim cfg s rid choices = some s') :
    ∃ layout', Coherent cfg s' latest layout' := by
  rw [BlockCache.doReclaim] at hreclaim
  split at hreclaim
  · cases hreclaim
  next hready =>
  have htracked : s.tracked rid = true := by
    by_contra hfalse
    exact hready (.inl hfalse)
  obtain ⟨t, hevicted, hrelease⟩ := bind_eq_some_iff.mp hreclaim
  generalize hs₁ : { s.setRegion rid ((s.regions rid).readyForReclaim true) with
    tracked := update s.tracked rid false } = s₁ at hevicted
  obtain ⟨h₁, hidle⟩ := h.victim htracked hs₁
  have hregion₁ : (s.regions rid).readyForReclaim true = s₁.regions rid := by
    rw [← hs₁, State.setRegion_self]
  have hwalk : BlockCache.onRegionReclaim cfg s₁ rid (s₁.regions rid).lastEntryEndOffset
      (onDevice cfg s₁.device rid) choices = some t := by
    rw [hregion₁] at hevicted
    split at hevicted
    · exact hevicted
    · next hitems =>
      -- A region without items has no entries to walk through.
      rw [(h₁.region rid).items (not_ne_iff.mp hitems), ← hevicted]
      rfl
  have hrid := (h.tracked rid htracked).1
  obtain ⟨layout', hcoherent, hbeside, hindexed⟩ := h₁.onRegionReclaim hidle hrid hthrew hwalk
  have hidle' := hbeside.idle hidle
  obtain ⟨-, hrelease⟩ := ite_none_right_eq_some.mp hrelease
  rw [some.injEq] at hrelease
  have hregion : s'.regions rid = {} := by
    rw [← hrelease]
    simp only [releaseRegion, State.setRegion_self, Region.waitForActiveReaders, Region.reset,
      hidle'.buffer]
  have hother : ∀ other, other ≠ rid → s'.regions other = t.regions other := by
    intro other hne
    rw [← hrelease]
    simp only [releaseRegion, State.setRegion_of_ne _ hne]
  exact ⟨_, (hcoherent.release hrid hindexed hidle'.clean hidle'.tracked (hrelease ▸ rfl)
    (hrelease ▸ rfl) (hrelease ▸ rfl) (hrelease ▸ rfl) hregion hother).1⟩

end CacheLib.Navy.BlockCache
