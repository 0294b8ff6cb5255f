/-
One incarnation of a region: what is written to it is what the backward scan finds.

The allocator hands out slots one behind the other (`Region::openAndAllocate`), and the holders of
the slots write their entries when they come to it, so the writes may be in another order than the
slots. Once all of them are done, the scan of `onRegionReclaim` and `onRegionCleanup` visits the
entries from the last slot to the first, and `readEntry` at the end of a slot finds its entry.

The size `readEntry` takes is only approximately that of the entry; it has to cover the descriptor
and the key.
-/
import CacheLib.Navy.LatestInsert

set_option autoImplicit false

section

-- the library; `CacheLib.Navy` has a `Bytes` of its own
open Bytes

namespace CacheLib.Navy.BlockCache

open List Option

open Transition (exec exec_invariant exec_invariant_history)

variable {cfg : Config}

/-- A slot that was handed out, with the entry that is for it. -/
structure Slot where
  offset : ℕ
  size : ℕ
  entry : Entry
  lastAccessTimeSecs : UInt32

/-- The entries are all those that have a slot, with the offset their slot ends at and the last one
first; `pending` are the slots not written yet. -/
structure Incarnation where
  region : Region Memory := {}
  data : Memory
  pending : List Slot := []
  entries : List (ℕ × Entry) := []

inductive FillLabel where
  /-- `allocate` in this region -/
  | allocate (entry : Entry) (lastAccessTimeSecs : UInt32)
  /-- `writeEntry` and `close` by the holder of a slot -/
  | write (i : ℕ)

def fillStep (cfg : Config) (s : Incarnation) : FillLabel → Option Incarnation
  | .allocate entry lastAccessTimeSecs =>
      let size := entry.size cfg
      if size = 0 ∨ cfg.regionSize < size then none
      else
        (s.region.openAndAllocate cfg.regionSize size).map fun (offset, region) =>
          { s with
            region := region
            pending := ⟨offset, size, entry, lastAccessTimeSecs⟩ :: s.pending
            entries := (offset + size, entry) :: s.entries }
  | .write i =>
      match s.pending[i]? with
      | none => none
      | some slot =>
          (writeEntry cfg s.data slot.offset slot.size slot.entry.key slot.entry.value
            slot.lastAccessTimeSecs).map fun data =>
              { s with
                region := s.region.close .write
                data := data
                pending := s.pending.eraseIdx i }

/-- The entries that were given a slot, in that order. -/
def allocated (ls : List FillLabel) : List Entry :=
  ls.filterMap fun
    | .allocate entry _ => some entry
    | .write _ => none

/-! ## Slots one behind the other -/

/-- The slots of the entries fill the region up to `off`, whatever is in them. -/
def Chain (cfg : Config) : List (ℕ × Entry) → ℕ → Prop
  | [], off => off = 0
  | (o, e) :: L, off => o = off ∧ 0 < e.size cfg ∧ e.size cfg ≤ off ∧ Chain cfg L (off - e.size cfg)

namespace Chain

variable {L : List (ℕ × Entry)} {off : ℕ} {x y : ℕ × Entry}

theorem sum_size (h : Chain cfg L off) : (L.map fun x => x.2.size cfg).sum = off := by
  induction L generalizing off with
  | nil => exact Eq.symm h
  | cons x L ih =>
      obtain ⟨-, -, hle, hL⟩ := h
      rw [map_cons, sum_cons, ih hL]
      omega

theorem bounds (h : Chain cfg L off) (hx : x ∈ L) :
    0 < x.2.size cfg ∧ x.2.size cfg ≤ x.1 ∧ x.1 ≤ off := by
  induction L generalizing off with
  | nil => cases hx
  | cons z L ih =>
      obtain ⟨hz, hpos, hle, hL⟩ := h
      rcases mem_cons.mp hx with rfl | hx
      · exact ⟨hpos, hz ▸ hle, hz.le⟩
      · obtain ⟨hxpos, hxle, hxoff⟩ := ih hL hx
        exact ⟨hxpos, hxle, hxoff.trans (Nat.sub_le _ _)⟩

/-- Two slots are the same or do not meet. -/
theorem apart (h : Chain cfg L off) (hx : x ∈ L) (hy : y ∈ L) :
    x = y ∨ x.1 ≤ y.1 - y.2.size cfg ∨ y.1 ≤ x.1 - x.2.size cfg := by
  induction L generalizing off with
  | nil => cases hx
  | cons z L ih =>
      obtain ⟨hz, -, -, hL⟩ := h
      rcases mem_cons.mp hx with hxz | hxL
      · rcases mem_cons.mp hy with hyz | hyL
        · exact .inl (hxz.trans hyz.symm)
        · rw [hxz, hz]
          exact .inr (.inr (hL.bounds hyL).2.2)
      · rcases mem_cons.mp hy with hyz | hyL
        · rw [hyz, hz]
          exact .inr (.inl (hL.bounds hxL).2.2)
        · exact ih hL hxL hyL

/-- With all entries written, the region is laid out. -/
theorem laid {m : Memory} (h : Chain cfg L off) (hentries : ∀ x ∈ L, EntryAt cfg m x.1 x.2) :
    Laid cfg m L off := by
  induction L generalizing off with
  | nil => exact h
  | cons x L ih =>
      obtain ⟨rfl, -, -, hL⟩ := h
      exact ⟨rfl, hentries x mem_cons_self,
        ih hL fun y hy => hentries y (mem_cons_of_mem _ hy)⟩

end Chain

/-! ## Filling -/

/-- The invariant: every slot is still to be written or has its entry. -/
structure Filling (cfg : Config) (s : Incarnation) : Prop where
  chain : Chain cfg s.entries s.region.lastEntryEndOffset
  full : s.region.lastEntryEndOffset ≤ cfg.regionSize
  pending : ∀ slot ∈ s.pending, (slot.offset + slot.size, slot.entry) ∈ s.entries ∧
    slot.entry.size cfg = slot.size
  entry : ∀ x ∈ s.entries,
    (∃ slot ∈ s.pending, (slot.offset + slot.size, slot.entry) = x) ∨ EntryAt cfg s.data x.1 x.2

variable {s s' : Incarnation}

theorem Filling.allocate (h : Filling cfg s) {entry : Entry} {time : UInt32}
    (hstep : fillStep cfg s (.allocate entry time) = some s') : Filling cfg s' := by
  rw [fillStep] at hstep
  obtain ⟨hsize, hstep⟩ := ite_none_left_eq_some.mp hstep
  rw [not_or, Nat.not_lt] at hsize
  obtain ⟨⟨offset, region⟩, halloc, hs'⟩ := map_eq_some_iff.mp hstep
  obtain ⟨hoffset, hfull, hregion⟩ := openAndAllocate_spec h.full hsize.2 halloc
  have hend : region.lastEntryEndOffset = offset + entry.size cfg := by rw [hregion]
  rw [← hs']
  exact {
    chain := by
      rw [hend]
      refine ⟨rfl, Nat.pos_of_ne_zero hsize.1, Nat.le_add_left _ _, ?_⟩
      rw [Nat.add_sub_cancel, hoffset]
      exact h.chain
    full := hend ▸ hfull
    pending := by
      intro slot hslot
      rcases mem_cons.mp hslot with rfl | hslot
      · exact ⟨mem_cons_self, rfl⟩
      · obtain ⟨hmem, heq⟩ := h.pending slot hslot
        exact ⟨mem_cons_of_mem _ hmem, heq⟩
    entry := by
      intro x hx
      rcases mem_cons.mp hx with rfl | hx
      · exact .inl ⟨_, mem_cons_self, rfl⟩
      · rcases h.entry x hx with ⟨slot, hslot, heq⟩ | hentry
        · exact .inl ⟨slot, mem_cons_of_mem _ hslot, heq⟩
        · exact .inr hentry }

/-- A write puts the entry in its slot and leaves the other slots as they are. -/
theorem Filling.write (h : Filling cfg s) {i : ℕ} (hstep : fillStep cfg s (.write i) = some s') :
    Filling cfg s' := by
  rw [fillStep] at hstep
  split at hstep
  · cases hstep
  next slot hget =>
  obtain ⟨data, hwrite, hs'⟩ := map_eq_some_iff.mp hstep
  have hslot : slot ∈ s.pending := mem_of_getElem? hget
  obtain ⟨hmem, hsize⟩ := h.pending slot hslot
  have hbounds := h.chain.bounds hmem
  have hfull := h.full
  dsimp only at hbounds
  have hle : slot.size ≤ cfg.regionSize := by omega
  obtain ⟨hentry, -⟩ := writeEntry_spec hsize hle hwrite
  rw [← hs']
  exact {
    chain := h.chain
    full := h.full
    pending := fun slot' hslot' => h.pending slot' (mem_of_mem_eraseIdx hslot')
    entry := by
      intro x hx
      dsimp only at hx ⊢
      rcases h.chain.apart hx hmem with rfl | hapart
      · exact .inr hentry
      · rcases h.entry x hx with ⟨slot', hslot', heq⟩ | hold
        · -- a slot that is still to be written is not the one written now
          refine .inl ⟨slot', ?_, heq⟩
          obtain ⟨j, hj, hget'⟩ := mem_iff_getElem.mp hslot'
          have hne : j ≠ i := by
            rintro rfl
            rw [getElem?_eq_getElem hj, some.injEq, hget'] at hget
            have hpos := hbounds.1
            rw [← heq, hget] at hapart
            dsimp only at hapart
            omega
          exact mem_eraseIdx_iff_getElem.mpr ⟨j, hj, hne, hget'⟩
        · refine .inr (hold.congr ?_)
          intro k hk hk'
          have hxle := hold.le
          refine (writeEntry_of_outside hwrite ?_).symm
          dsimp only at hapart
          omega }

theorem Filling.start (cfg : Config) (data : Memory) : Filling cfg { data := data } where
  chain := rfl
  full := Nat.zero_le _
  pending slot hslot := by cases hslot
  entry x hx := by cases hx

theorem filling_of_exec {data : Memory} {ls : List FillLabel}
    (hrun : exec (fillStep cfg) { data := data } ls = some s) : Filling cfg s := by
  refine exec_invariant ?_ hrun (Filling.start cfg data)
  intro t l t' h hstep
  cases l with
  | allocate entry time => exact h.allocate hstep
  | write i => exact h.write hstep

/-- The entries are those that were given a slot, the last one first. -/
theorem entries_of_exec {data : Memory} {ls : List FillLabel}
    (hrun : exec (fillStep cfg) { data := data } ls = some s) :
    s.entries.map Prod.snd = (allocated ls).reverse := by
  refine @exec_invariant_history _ _ _ (fun _ _ => True)
    (fun past (t : Incarnation) => t.entries.map Prod.snd = (allocated past).reverse)
    ?_ _ _ _ hrun (Transition.Along.of_forall fun _ _ _ => trivial) rfl
  intro past t l t' h _ hstep
  cases l with
  | allocate entry time =>
      rw [fillStep] at hstep
      obtain ⟨-, hstep⟩ := ite_none_left_eq_some.mp hstep
      obtain ⟨⟨offset, region⟩, -, rfl⟩ := map_eq_some_iff.mp hstep
      simpa [allocated, filterMap_append] using h
  | write i =>
      rw [fillStep] at hstep
      split at hstep
      · cases hstep
      · obtain ⟨data', -, rfl⟩ := map_eq_some_iff.mp hstep
        simpa [allocated, filterMap_append] using h

theorem foldlM_congr_mem {σ α : Type} {f g : σ → α → Option σ} {l : List α}
    (h : ∀ x ∈ l, ∀ t, f t x = g t x) (t : σ) : l.foldlM f t = l.foldlM g t := by
  induction l generalizing t with
  | nil => rfl
  | cons x l ih =>
      rw [foldlM_cons, foldlM_cons, h x mem_cons_self]
      exact bind_congr fun u _ => ih (fun y hy => h y (mem_cons_of_mem _ hy)) u

/-- **The backward scan visits exactly the entries that were written**, each once and in the reverse
order of allocation, down to offset zero, and **`readEntry` at the end of an entry returns it** for
every approximate size that covers its descriptor and its key. -/
theorem scan_and_read_written {data : Memory} {ls : List FillLabel}
    (hrun : exec (fillStep cfg) { data := data } ls = some s) (hdone : s.pending = []) :
    s.entries.map Prod.snd = (allocated ls).reverse ∧
      (s.entries.map fun x => x.2.size cfg).sum = s.region.lastEntryEndOffset ∧
      (∀ {σ : Type} (visit : σ → ℕ → EntryDesc → List UInt8 → List UInt8 → Option σ) (acc : σ),
        forEachEntry cfg s.data visit s.region.lastEntryEndOffset s.region.lastEntryEndOffset acc
          = s.entries.foldlM (fun acc x =>
              visit acc x.1 (EntryDesc.load s.data (x.1 - descSize)) x.2.key x.2.value) acc) ∧
      ∀ x ∈ s.entries, ∀ approxSize, descSize + x.2.key.length ≤ approxSize →
        ∃ time, readEntry cfg (reader s.data) x.1 approxSize x.2.key = some ⟨.ok, x.2.value, time⟩ := by
  have h := filling_of_exec hrun
  have hentries : ∀ x ∈ s.entries, EntryAt cfg s.data x.1 x.2 := by
    intro x hx
    rcases h.entry x hx with ⟨slot, hslot, -⟩ | hentry
    · rw [hdone] at hslot
      cases hslot
    · exact hentry
  have hlaid := h.chain.laid hentries
  refine ⟨entries_of_exec hrun, h.chain.sum_size, ?_, ?_⟩
  · intro σ visit acc
    rw [forEachEntry_eq_foldlM acc (hlaid.headers fun _ _ _ _ _ => rfl) le_rfl]
    exact foldlM_congr_mem (fun x hx t => visitEntry_of_entryAt (hentries x hx) t) acc
  · intro x hx approxSize hcovers
    rw [readEntry_eq (hentries x hx), if_pos hcovers, if_pos rfl]
    exact ⟨_, rfl⟩

/-- Two entries, of which the second is written first. -/
def twoWriters : List FillLabel :=
  [.allocate ⟨[7], [1]⟩ 0, .allocate ⟨[2], [3, 4]⟩ 5, .write 0, .write 0]

theorem scan_and_read_written_twoWriters :
    ∃ s, exec (fillStep small) { data := fun _ => 0 } twoWriters = some s ∧ s.pending = [] ∧
      s.entries.map (fun x => (x.1, x.2.key, x.2.value)) = [(1024, [2], [3, 4]), (512, [7], [1])] ∧
      s.entries.map Prod.snd = (allocated twoWriters).reverse ∧
      ∀ x ∈ s.entries, ∃ time,
        readEntry small (reader s.data) x.1 512 x.2.key = some ⟨.ok, x.2.value, time⟩ := by
  obtain ⟨s, hrun, hdone, hentries, hlength⟩ :
      ∃ s, exec (fillStep small) { data := fun _ => 0 } twoWriters = some s ∧
        s.pending.isEmpty = true ∧
        s.entries.map (fun x => (x.1, x.2.key, x.2.value)) = [(1024, [2], [3, 4]), (512, [7], [1])] ∧
        ∀ x ∈ s.entries, descSize + x.2.key.length ≤ 512 := by decide +kernel
  have hdone := isEmpty_iff.mp hdone
  obtain ⟨horder, -, -, hread⟩ := scan_and_read_written hrun hdone
  exact ⟨s, hrun, hdone, hentries, horder, fun x hx => hread x hx 512 (hlength x hx)⟩

/-- A key of 500 bytes is not in the 512 bytes that are read for a hint of one unit, so `readEntry`
looks for it before them. -/
theorem key_outside_first_read :
    ∃ s, exec (fillStep small) { data := fun _ => 0 }
        [.allocate ⟨replicate 500 8, []⟩ 0, .write 0] = some s ∧ s.pending = [] ∧
      s.entries.map (fun x => (x.1, x.2.key, x.2.value)) = [(1024, replicate 500 8, [])] ∧
      readEntry small (reader s.data) 1024 (decodeSizeHint 1) (replicate 500 8) = none := by
  decide +kernel

end CacheLib.Navy.BlockCache

end
