/-
Which value a lookup of `BlockCache` returns, over whole histories.

A history is the list of the steps that were taken, each with what it returned. In a
history in which neither the expiry check nor the reinsertion policy throws while a
region is reclaimed, a lookup that returns `Ok` returns the value of the most recent
insert of its key, and the key has not been removed since. Nothing is asked of the
hash of a key: two keys may share a slot of the index, or the whole hash.

When one of the two throws, the item's record stays in the index, while the region is
emptied under it; a lookup may then find an older entry of the key.
-/
import CacheLib.Navy.BlockOperations

set_option autoImplicit false

namespace CacheLib.Navy.BlockCache

open Bytes Transition List Option Function

variable {cfg : Config} {s s' : State} {latest : Latest} {layout : Layout}

/-! ## Histories -/

/-- The step gives the key another value or takes it away: an insert that was not turned
down, or a remove, whatever it returned. -/
def Label.Concerns (key : List UInt8) : Label → Prop
  | .insert key' _ _ _ status => key' = key ∧ status = .ok
  | .remove key' _ => key' = key
  | _ => False

/-- The most recent insert of the key gave it the value, and no remove came after it. -/
def MostRecentInsert (history : List Label) (key value : List UInt8) : Prop :=
  ∃ before time onNavyThread after,
    history = before ++ .insert key value time onNavyThread .ok :: after ∧
      ∀ l ∈ after, ¬ l.Concerns key

/-- What each key was last given, after one more step. -/
def Latest.after (latest : Latest) : Label → Latest
  | .insert key value _ _ status =>
      if status = .ok then update latest key (some value) else latest
  | .remove key _ => update latest key none
  | _ => latest

/-- What each key was last given in a history. -/
def latestOf (history : List Label) : Latest := history.foldl Latest.after fun _ => none

theorem latestOf_append_singleton (history : List Label) (l : Label) :
    latestOf (history ++ [l]) = (latestOf history).after l := by
  rw [latestOf, foldl_append]
  rfl

theorem Latest.after_of_not_concerns {key : List UInt8} {l : Label} (h : ¬ l.Concerns key) :
    latest.after l key = latest key := by
  cases l with
  | insert key' value time onNavyThread status =>
      rw [Latest.after]
      split
      · next hok => exact update_of_ne (fun heq => h ⟨heq.symm, hok⟩) ..
      · rfl
  | remove key' status => exact update_of_ne (fun heq => h heq.symm) ..
  | lookup key' ld => rfl
  | reclaim rid choices => rfl
  | flush rid written => rfl

theorem Latest.after_of_concerns {key value : List UInt8} {l : Label} (h : l.Concerns key)
    (hvalue : latest.after l key = some value) :
    ∃ time onNavyThread, l = .insert key value time onNavyThread .ok := by
  cases l with
  | insert key' value' time onNavyThread status =>
      obtain ⟨rfl, rfl⟩ := h
      rw [Latest.after, if_pos rfl, update_self, some.injEq] at hvalue
      exact ⟨time, onNavyThread, by rw [hvalue]⟩
  | remove key' status =>
      obtain rfl : key' = key := h
      rw [Latest.after, update_self] at hvalue
      cases hvalue
  | lookup key' ld => exact h.elim
  | reclaim rid choices => exact h.elim
  | flush rid written => exact h.elim

/-- **The most recent insert is what the history leaves.** -/
theorem mostRecentInsert_iff {history : List Label} {key value : List UInt8} :
    MostRecentInsert history key value ↔ latestOf history key = some value := by
  constructor
  · rintro ⟨before, time, onNavyThread, after, rfl, hafter⟩
    -- By induction on what came after the insert, from its end.
    induction after using reverseRecOn with
    | nil =>
        rw [latestOf_append_singleton, Latest.after, if_pos rfl, update_self]
    | append_singleton after l ih =>
        rw [← cons_append, ← append_assoc, latestOf_append_singleton,
          Latest.after_of_not_concerns (hafter l (by simp))]
        exact ih fun l' hl' => hafter l' (mem_append_left _ hl')
  · induction history using reverseRecOn with
    | nil =>
        intro hnone
        cases hnone
    | append_singleton history l ih =>
        rw [latestOf_append_singleton]
        intro hvalue
        by_cases hl : l.Concerns key
        · obtain ⟨time, onNavyThread, rfl⟩ := Latest.after_of_concerns hl hvalue
          exact ⟨history, time, onNavyThread, [], rfl, by simp⟩
        · rw [Latest.after_of_not_concerns hl] at hvalue
          obtain ⟨before, time, onNavyThread, after, rfl, hafter⟩ := ih hvalue
          refine ⟨before, time, onNavyThread, after ++ [l], by simp, ?_⟩
          intro l' hl'
          rcases mem_append.mp hl' with hl' | hl'
          · exact hafter l' hl'
          · exact mem_singleton.mp hl' ▸ hl

/-! ## Runs -/

/-- The aligned size of an inserted entry fits in 32 bits, so that `serializedSize` does not take
it for a smaller one. While a region is reclaimed neither the expiry check nor the reinsertion
policy throws. -/
def Label.Regular (cfg : Config) : Label → Prop
  | .insert key value .. =>
      powTwoAlign (descSize + key.length + value.length) cfg.allocAlignSize < 2 ^ 32
  | .reclaim _ choices => ∀ off, (choices off).decision ≠ .threw
  | _ => True

/-- Nothing is indexed at the start, and nothing is in a region. -/
theorem Coherent.init (cfg : Config) (device : Memory) (buffers : List Memory) :
    Coherent cfg (init cfg device buffers) (fun _ => none) fun _ => [] where
  region rid := ⟨rfl, Nat.zero_le _, fun _ => rfl, rfl, rfl, fun hbuffer => by cases hbuffer⟩
  clean rid hmem := by cases hmem
  nodup := nodup_nil
  tracked rid htrue := ⟨of_decide_eq_true htrue, rfl⟩
  points at_ record hrecord := by cases hrecord

theorem answering_eq_some {ρ : Type} [DecidableEq ρ] {result : ρ} {done : Option (ρ × State)} :
    answering result done = some s ↔ done = some (result, s) := by
  rw [answering, bind_eq_some_iff]
  constructor
  · rintro ⟨⟨got, t⟩, hdone, hgot⟩
    obtain ⟨rfl, ht⟩ := ite_none_right_eq_some.mp hgot
    rw [hdone, some.inj ht]
  · intro hdone
    exact ⟨(result, s), hdone, if_pos rfl⟩

/-- **Every step keeps the cache coherent** with what the keys were last given. -/
theorem Coherent.step (h : Coherent cfg s latest layout) {l : Label} (hl : l.Regular cfg)
    (hstep : step cfg s l = some s') :
    ∃ layout', Coherent cfg s' (latest.after l) layout' := by
  cases l with
  | insert key value time onNavyThread status =>
      exact h.insert (answering_eq_some.mp hstep)
  | lookup key ld =>
      exact ⟨layout, (h.lookup (answering_eq_some.mp hstep)).1⟩
  | remove key status =>
      exact ⟨layout, h.remove (answering_eq_some.mp hstep)⟩
  | reclaim rid choices =>
      exact h.doReclaim hl hstep
  | flush rid written =>
      obtain ⟨-, hflush⟩ := ite_none_right_eq_some.mp hstep
      have hjob : Coherent cfg { s with flushJobs := s.flushJobs.erase rid } latest layout :=
        h.of_sameView rfl rfl rfl (fun _ => id) fun _ => SameView.refl _
      obtain ⟨layout', hmoves⟩ := hjob.doFlushInternal hflush
      exact ⟨layout', hmoves.1⟩

/-- What the cache may be trusted for after a history. -/
def CoherentAfter (cfg : Config) (history : List Label) (s : State) : Prop :=
  ∃ layout, Coherent cfg s (latestOf history) layout

/-- **In every run of regular steps the cache is coherent with its history.** -/
theorem coherentAfter_of_exec {device : Memory} {buffers : List Memory} {history : List Label}
    (hregular : ∀ l ∈ history, l.Regular cfg)
    (hrun : exec (BlockCache.step cfg) (init cfg device buffers) history = some s) :
    CoherentAfter cfg history s := by
  have hinit : CoherentAfter cfg [] (init cfg device buffers) :=
    ⟨_, Coherent.init cfg device buffers⟩
  refine exec_invariant_history (C := fun _ l => l.Regular cfg) ?_ hrun
    (Along.of_forall fun l hl _ => hregular l hl) hinit
  rintro past s l s' ⟨layout, h⟩ hl hstep
  rw [CoherentAfter, latestOf_append_singleton]
  exact h.step hl hstep

/-- **A lookup that returns `Ok` returns the value of the most recent insert of its
key**, which has not been removed since, in every history in which no callback threw and the sizes
of all inserts fit in 32 bits. -/
theorem lookup_ok_mostRecentInsert {device : Memory} {buffers : List Memory}
    {history : List Label} {key : List UInt8} {ld : LookupData}
    (hregular : ∀ l ∈ history, l.Regular cfg)
    (hrun : exec (BlockCache.step cfg) (init cfg device buffers) history = some s)
    (hlookup : lookup cfg s key = some (ld, s')) (hok : ld.status = .ok) :
    MostRecentInsert history key ld.value := by
  obtain ⟨layout, h⟩ := coherentAfter_of_exec hregular hrun
  obtain ⟨-, ⟨-, hlatest⟩ | ⟨hnotFound, -⟩⟩ := h.lookup hlookup
  · exact mostRecentInsert_iff.mpr hlatest
  · rw [hok] at hnotFound
    cases hnotFound

/-! ## An insert and a lookup -/

/-- The hint of an item that is not too large covers it. -/
theorem le_decodeSizeHint {size : ℕ} (h : size ≤ kMaxItemSize) :
    size ≤ decodeSizeHint (encodeSizeHint size) := by
  have hmin : kMinAllocAlignSize = 512 := rfl
  have hunits : (size + (kMinAllocAlignSize - 1)) / kMinAllocAlignSize < 2 ^ 16 := by
    unfold kMaxItemSize at h
    rw [hmin] at h ⊢
    omega
  rw [decodeSizeHint, encodeSizeHint, powTwoAlign, Nat.mul_div_cancel _ (by decide),
    Nat.mod_eq_of_lt hunits]
  exact le_powTwoAlign size (by decide)

/-- An entry is found where a record with its code and a hint that covers it points to it. -/
theorem Coherent.lookup_entry (h : Coherent cfg s latest layout) {rid : RegionId} {off : ℕ}
    {e : Entry} {record : ItemRecord} (hin : InRange cfg ⟨rid, off⟩)
    (hne : encodeRelAddress cfg ⟨rid, off⟩ ≠ 0) (hmem : (off, e) ∈ layout rid)
    (hrecord : s.index (keySlot cfg e.key) = some record)
    (haddr : record.address = encodeRelAddress cfg ⟨rid, off⟩)
    (hhint : e.size cfg ≤ decodeSizeHint record.sizeHint) :
    ∃ ld t, BlockCache.lookup cfg s e.key = some (ld, t) ∧ ld.status = .ok ∧ ld.value = e.value := by
  obtain ⟨region, hregion, -⟩ := openForRead_of_access (h.region rid).access
  have hopen : BlockCache.openEntry cfg e.key 1 s = some (.ready ⟨rid, off⟩ record.sizeHint
      (s.regions rid).physReadMode,
      { s with index := s.index.hit (keySlot cfg e.key) }.setRegion rid region) := by
    rw [BlockCache.openEntry.eq_def]
    dsimp only
    rw [hrecord]
    dsimp only
    rw [haddr, hin.decode_encode hne, if_pos hin.rid, hregion]
  obtain ⟨h₁, hmode, -⟩ := h.openEntry hopen
  have hentry := ((h₁.region rid).laid.entryAt hmem).1
  have hfits := hentry.fits
  have hread := readEntry_eq hentry (decodeSizeHint record.sizeHint) e.key
  rw [if_pos (by omega), if_pos rfl] at hread
  rw [BlockCache.lookup, hopen]
  dsimp only at hmode ⊢
  rw [hmode, regionRead_physReadMode, bind_some, hread]
  exact ⟨_, _, rfl, rfl, rfl⟩

/-- **What was inserted is found.** After every history in which no callback threw, a lookup that
follows an insert of its key which returned `Ok` returns `Ok` and the value. The sizes of all
inserts, the last one included, have to fit in 32 bits. The cache has to be smaller than the largest
one that is accepted, whose last address has the code 0. -/
theorem lookup_of_insert {device : Memory} {buffers : List Memory} {history : List Label}
    {key value : List UInt8} {time : UInt32} {onNavyThread : Bool}
    (hcache : cfg.cacheSize < 2 ^ 32 * cfg.allocAlignSize)
    (hregular : ∀ l ∈ Label.insert key value time onNavyThread .ok :: history, l.Regular cfg)
    (hrun : exec (BlockCache.step cfg) (init cfg device buffers) history = some s)
    (hinsert : insert cfg s key value time onNavyThread = some (.ok, s')) :
    ∃ ld t, lookup cfg s' key = some (ld, t) ∧ ld.status = .ok ∧ ld.value = value := by
  obtain ⟨layout, h⟩ := coherentAfter_of_exec (forall_mem_cons.mp hregular).2 hrun
  rw [BlockCache.insert] at hinsert
  split at hinsert
  · cases hinsert
  next hsize =>
  split at hinsert <;> try cases hinsert
  next rid offset s₁ halloc =>
  obtain ⟨s₂, hwrite, hdone⟩ := map_eq_some_iff.mp hinsert
  obtain ⟨-, rfl⟩ := Prod.mk.inj hdone
  obtain ⟨s₀, layout₀, hmoves, hgot⟩ := h.allocate halloc
  obtain ⟨layout', hwritten, hmem, hin, -, -⟩ := hmoves.1.writeReserved hgot hwrite
  have h' := ((hwritten.1.updateIndex hin hmem).close_moves rid .write).1
  have hne : encodeRelAddress cfg
      ⟨rid, offset + serializedSize cfg key.length value.length⟩ ≠ 0 := fun hzero => by
    have hle := hin.toAbsolute_le
    rw [hin.encode_eq_zero_iff.mp hzero] at hle
    exact absurd hcache (Nat.not_lt.mpr hle)
  exact h'.lookup_entry hin hne hmem (update_self ..) rfl (le_decodeSizeHint (Nat.not_lt.mp hsize))

/-! ## A small cache

Three regions of two slots, with two buffers. The key `[7]` is what it is about. -/

theorem two_buffers_ne : 2 ≠ 0 := by decide

/-- The hashes of this cache are the bytes themselves, as far as they fit. -/
def small : Config where
  hashBuffer := fun key => UInt64.ofNat (ofLE key)
  checksum := fun data => UInt32.ofNat (ofLE data)
  deviceSize := 3072
  cacheBaseOffset := 0
  cacheSize := 3072
  regionSize := 1024
  checksumData := true
  cleanRegionsPool := 1
  numInMemBuffers := 2
  allocatorsPerPriority := [1]
  itemDestructorEnabled := false
  destructorCb := false
  preciseRemove := false
  regionManagerFlushAsync := false
  cleanRegionFastPath := false
  numSparseMapBuckets := 65536
  regionSize_le := by decide
  cacheSize_pos := by decide
  cacheSize_mod := by decide
  cleanRegionsPool_le := by decide
  numInMemBuffers_ne := two_buffers_ne
  allocatorsPerPriority_ne := by decide
  allocators_ne := by decide
  isPowTwo := ⟨9, by decide⟩
  regionSize_mod := by decide
  cacheSize_le := by decide

/-- The cache as it starts, over a device and buffers of zeros. -/
def smallStart : State := init small (fun _ => 0) [fun _ => 0, fun _ => 0]

/-- An insert on one of Navy's threads. -/
def put (key value : List UInt8) (status : Status) : Label := .insert key value 0 true status

/-- A reclaim that treats the first entry of the region like this, and drops the
second. -/
def reclaimFirst (rid : RegionId) (decision : Decision) : Label :=
  .reclaim rid fun off => if off = 512 then { decision := decision } else { decision := .rejected }

/-- The item is inserted, flushed and then kept when its region is reclaimed. -/
def keptRun : List Label :=
  [put [7] [1] .retry, reclaimFirst 0 .rejected, put [7] [1] .ok, put [1] [0] .ok,
    put [2] [0] .retry, reclaimFirst 1 .rejected, put [2] [0] .ok, .flush 0 true,
    reclaimFirst 0 .accepted]

theorem put_regular {key value : UInt8} {status : Status} :
    (put [key] [value] status).Regular small :=
  show powTwoAlign (descSize + 1 + 1) small.allocAlignSize < 2 ^ 32 by decide

theorem reclaimFirst_regular {rid : RegionId} {decision : Decision}
    (h : decision ≠ .threw) : (reclaimFirst rid decision).Regular small := by
  intro off
  dsimp only
  split
  · exact h
  · decide

/-- The hypotheses meet in a run with a reinsertion. -/
theorem lookup_ok_mostRecentInsert_kept :
    ∃ s ld s', exec (BlockCache.step small) smallStart keptRun = some s ∧
      lookup small s [7] = some (ld, s') ∧ ld.status = .ok ∧
      MostRecentInsert keptRun [7] ld.value := by
  obtain ⟨s, hrun, ⟨ld, s'⟩, hlookup, hok⟩ :
      ∃ s, exec (BlockCache.step small) smallStart keptRun = some s ∧
        ∃ r, lookup small s [7] = some r ∧ r.1.status = .ok := by decide +kernel
  have hregular : ∀ l ∈ keptRun, l.Regular small := by
    simp only [keptRun, forall_mem_cons]
    exact ⟨put_regular, reclaimFirst_regular (by decide), put_regular, put_regular, put_regular,
      reclaimFirst_regular (by decide), put_regular, trivial,
      reclaimFirst_regular (by decide), forall_mem_nil _⟩
  exact ⟨s, ld, s', hrun, hlookup, hok, lookup_ok_mostRecentInsert hregular hrun hlookup hok⟩

theorem lookup_of_insert_kept :
    ∃ s s', exec (BlockCache.step small) smallStart [put [7] [1] .retry, reclaimFirst 0 .rejected]
        = some s ∧ insert small s [7] [1] 0 true = some (.ok, s') ∧
      ∃ ld t, lookup small s' [7] = some (ld, t) ∧ ld.status = .ok ∧ ld.value = [1] := by
  obtain ⟨s, hrun, ⟨_, s'⟩, hinsert, rfl⟩ :
      ∃ s, exec (BlockCache.step small) smallStart [put [7] [1] .retry, reclaimFirst 0 .rejected]
        = some s ∧ ∃ r, insert small s [7] [1] 0 true = some r ∧ r.1 = .ok := by decide +kernel
  have hregular : ∀ l ∈ [put [7] [1] .ok, put [7] [1] .retry, reclaimFirst 0 .rejected],
      l.Regular small := by
    simp only [forall_mem_cons]
    exact ⟨put_regular, put_regular, reclaimFirst_regular (by decide), forall_mem_nil _⟩
  exact ⟨s, s', hrun, hinsert, lookup_of_insert (by decide) hregular hrun hinsert⟩

/-- The key is given the empty value and then the value `[2]`. When the region with `[2]`
is reclaimed, the callback throws. The buffer the region gets next still has the first
entry in it. -/
def staleRun : List Label :=
  [put [7] [] .retry, reclaimFirst 0 .rejected, put [7] [] .ok, put [1] [0] .ok,
    put [7] [2] .retry, reclaimFirst 1 .rejected, put [7] [2] .ok, put [2] [0] .ok,
    .flush 0 true, put [3] [0] .retry, reclaimFirst 2 .rejected, .flush 1 true,
    put [3] [0] .ok, put [4] [0] .ok, put [5] [0] .retry, reclaimFirst 0 .rejected,
    .flush 2 true, put [5] [0] .ok, put [6] [0] .ok,
    put (replicate 200 8) (replicate 290 0) .retry, reclaimFirst 1 .threw,
    put (replicate 200 8) (replicate 290 0) .ok]

/-- **A stale value.** After the throw the key is found with the value it had before its
most recent insert. -/
theorem lookup_stale_after_throw :
    ∃ s ld s', exec (BlockCache.step small) smallStart staleRun = some s ∧
      lookup small s [7] = some (ld, s') ∧ ld.status = .ok ∧
      ¬ MostRecentInsert staleRun [7] ld.value := by
  obtain ⟨s, hrun, ⟨ld, s'⟩, hlookup, hok, hstale⟩ :
      ∃ s, exec (BlockCache.step small) smallStart staleRun = some s ∧
        ∃ r, lookup small s [7] = some r ∧ r.1.status = .ok ∧
          latestOf staleRun [7] ≠ some r.1.value := by decide +kernel
  exact ⟨s, ld, s', hrun, hlookup, hok, fun h => hstale (mostRecentInsert_iff.mp h)⟩

end CacheLib.Navy.BlockCache
