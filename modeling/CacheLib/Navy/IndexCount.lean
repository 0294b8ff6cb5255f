/-
What `computeSize` of a `FixedSizeIndex` counts.

The counters are kept by the shards, and an insert adds one for a key that was not found. Whether
the key is stored afterwards is another matter: a full block refuses it. Apart from that the
counters are right, and their sum is the number of records; `weight` is the share of a bucket in it.
-/
import CacheLib.Navy.IndexMarks
import Mathlib.Algebra.BigOperators.Group.Finset.Basic

set_option autoImplicit false

namespace CacheLib.Navy.FixedSizeIndex

open Transition Function List Option LockedBucket

variable {cfg : Config} {s s' s₁ : State} {retrieveKey : UInt32 → Option UInt64} {key c : UInt64}

/-! ## The counts -/

/-- The loop of `computeSize`, which ends if its 32-bit counter can reach the number of shards. -/
def computeSizeLoop (validBucketsPerShard : UInt64 → UInt64) : ℕ → UInt64
  | 0 => 0
  | i + 1 => computeSizeLoop validBucketsPerShard i + validBucketsPerShard (UInt64.ofNat i)

def computeSize (cfg : Config) (s : State) : UInt64 :=
  computeSizeLoop s.validBucketsPerShard cfg.totalShards.toNat

/-- The entries of a block that are not removed, `numValidEntries_` -/
def numValidEntries (block : CombinedEntryBlock) : ℕ := block.entries.countP fun e => !e.removed

/-- The records that are found in a bucket -/
def weight (cfg : Config) (s : State) (bid : UInt64) : ℕ :=
  if (s.ht bid).isCombinedEntry then
    (s.combinedEntries (cfg.shardId bid) bid).elim 0 numValidEntries
  else (s.ht bid).isValid.toNat

/-- The records that are found in the table -/
def recordCount (cfg : Config) (s : State) : ℕ :=
  ∑ i ∈ Finset.range cfg.totalBuckets.toNat, weight cfg s (UInt64.ofNat i)

/-- The address is not the invalid one, and an insert does not go to a full block. -/
def Op.CountsRight (cfg : Config) (s : State) (retrieveKey : UInt32 → Option UInt64) : Op → Prop
  | .insert key address _ | .insertIfNotExists key address _ =>
      address ≠ 0 ∧ ¬ GoesToFullBlock cfg s retrieveKey key
  | .replaceIfMatch _ newAddress _ => newAddress ≠ 0
  | _ => True

/-- Moreover, no mark is taken over by a `recover`. -/
def CountsRight (cfg : Config) (s : State) : Event → Prop
  | .call c => c.op.CountsRight cfg s c.retrieveKey
  | e => KeepsBlocks cfg s e

/-! ## Sums -/

theorem computeSizeLoop_update (v : UInt64 → UInt64) (sid d : UInt64) {n : ℕ} (hn : n ≤ 2 ^ 64) :
    computeSizeLoop (update v sid (v sid + d)) n
      = if sid.toNat < n then computeSizeLoop v n + d else computeSizeLoop v n := by
  induction n with
  | zero => rfl
  | succ n ih =>
      rw [computeSizeLoop, computeSizeLoop, ih (by omega)]
      have hword : (UInt64.ofNat n).toNat = n := UInt64.toNat_ofNat_of_lt' (by
        change n < 2 ^ 64
        omega)
      by_cases hsid : UInt64.ofNat n = sid
      · subst hsid
        rw [hword, update_self, if_neg (Nat.lt_irrefl n), if_pos (Nat.lt_succ_self n),
          UInt64.add_assoc]
      · rw [update_of_ne hsid]
        have hne : sid.toNat ≠ n := fun heq => hsid (by rw [← heq, UInt64.ofNat_toNat])
        by_cases hlt : sid.toNat < n
        · rw [if_pos hlt, if_pos (by omega), UInt64.add_assoc, UInt64.add_comm d, ← UInt64.add_assoc]
        · rw [if_neg hlt, if_neg (by omega)]

theorem computeSize_countValid (haccepted : cfg.Accepted) (lb : LockedBucket) (s : State)
    (d : UInt64) (hsid : lb.sid = cfg.shardId (cfg.bucketId key)) :
    computeSize cfg (lb.countValid s (· + d)) = computeSize cfg s + d := by
  have hlt := shardId_lt_totalShards haccepted (haccepted.bucketId_lt key)
  rw [← hsid] at hlt
  exact (computeSizeLoop_update s.validBucketsPerShard lb.sid d cfg.totalShards.toNat_lt.le).trans
    (if_pos hlt)

/-- The weight of one bucket changes. -/
theorem recordCount_update {w : ℕ} (hc : c < cfg.totalBuckets)
    (hweight : weight cfg s' = update (weight cfg s) c w) :
    recordCount cfg s' + weight cfg s c = recordCount cfg s + w := by
  have hmem : c.toNat ∈ Finset.range cfg.totalBuckets.toNat := Finset.mem_range.mpr hc
  have hrest : ∑ i ∈ (Finset.range cfg.totalBuckets.toNat).erase c.toNat, weight cfg s' (UInt64.ofNat i)
      = ∑ i ∈ (Finset.range cfg.totalBuckets.toNat).erase c.toNat, weight cfg s (UInt64.ofNat i) := by
    refine Finset.sum_congr rfl fun i hi => ?_
    obtain ⟨hne, hi⟩ := Finset.mem_erase.mp hi
    have hword : (UInt64.ofNat i).toNat = i :=
      UInt64.toNat_ofNat_of_lt' ((Finset.mem_range.mp hi).trans cfg.totalBuckets.toNat_lt)
    rw [hweight, update_of_ne fun heq => hne (by rw [← heq, hword])]
  have hold := Finset.add_sum_erase _ (fun i => weight cfg s (UInt64.ofNat i)) hmem
  have hnew := Finset.add_sum_erase _ (fun i => weight cfg s' (UInt64.ofNat i)) hmem
  rw [UInt64.ofNat_toNat] at hold hnew
  rw [hrest] at hnew
  have hself : weight cfg s' c = w := by rw [hweight, update_self]
  rw [recordCount, recordCount]
  omega

/-! ## Entries of a block -/

section

variable {block : CombinedEntryBlock} {bid : UInt64} {record : PackedItemRecord} {e : BlockEntry}

/-- No two entries have the same key, and the records that are found are valid. -/
structure BlockSound (block : CombinedEntryBlock) : Prop where
  nodup : (block.entries.map BlockEntry.key).Nodup
  valid : ∀ e ∈ block.entries, e.removed = false → e.record.isValid = true

theorem getIndexEntry_of_find (hfind : block.find key = some e) :
    block.getIndexEntry key = if e.removed then none else some e.record := by
  rw [CombinedEntryBlock.getIndexEntry, hfind]

theorem exists_find (h : block.getIndexEntry key = some record) :
    ∃ e, block.find key = some e ∧ e.removed = false ∧ e.record = record := by
  cases hfind : block.find key with
  | none =>
      rw [CombinedEntryBlock.getIndexEntry, hfind] at h
      cases h
  | some e =>
      rw [getIndexEntry_of_find hfind] at h
      split_ifs at h with hremoved
      exact ⟨e, rfl, Bool.not_eq_true _ ▸ hremoved, some.inj h⟩

theorem BlockSound.isValid (h : BlockSound block) (hentry : block.getIndexEntry key = some record) :
    record.isValid = true := by
  obtain ⟨e, hfind, hremoved, rfl⟩ := exists_find hentry
  exact h.valid e (mem_of_find?_eq_some hfind) hremoved

/-- Entries with different keys are told apart by them. -/
theorem map_eq_set {es : List BlockEntry} {i : ℕ} (hnodup : (es.map BlockEntry.key).Nodup)
    (hi : es[i]? = some e) (f : BlockEntry → BlockEntry) :
    es.map (fun x => if x.key = e.key then f x else x) = es.set i (f e) := by
  obtain ⟨hlt, hget⟩ := List.getElem?_eq_some_iff.mp hi
  refine ext_getElem (by simp) ?_
  intro j hj _
  rw [getElem_map, getElem_set]
  rw [length_map] at hj
  have hsame := @Nodup.getElem_inj_iff _ _ hnodup i (by simpa) j (by simpa)
  rw [getElem_map, getElem_map, hget] at hsame
  simp only [eq_comm (a := es[j].key), hsame]
  split
  · next hij =>
      subst hij
      rw [hget]
  · rfl

/-- The entry of a key is changed in its place. -/
theorem BlockSound.change (h : BlockSound block) (hfind : block.find key = some e)
    {f : BlockEntry → BlockEntry} (hkey : ∀ e, (f e).key = e.key)
    (hvalid : (f e).removed = false → (f e).record.isValid = true) :
    BlockSound ⟨block.entries.map fun e => if e.key = key then f e else e⟩ ∧
      numValidEntries ⟨block.entries.map fun e => if e.key = key then f e else e⟩ + (!e.removed).toNat
        = numValidEntries block + (!(f e).removed).toNat := by
  obtain rfl := CombinedEntryBlock.key_of_find hfind
  obtain ⟨i, hi⟩ := getElem?_of_mem (mem_of_find?_eq_some hfind)
  obtain ⟨hlt, hget⟩ := List.getElem?_eq_some_iff.mp hi
  rw [map_eq_set h.nodup hi f]
  refine ⟨⟨?_, ?_⟩, ?_⟩
  · have hkeys : (block.entries.set i (f e)).map BlockEntry.key = block.entries.map BlockEntry.key := by
      rw [map_set, hkey, ← hget, ← getElem_map BlockEntry.key (h := by simpa using hlt),
        set_getElem_self]
    rw [hkeys]
    exact h.nodup
  · intro x hx
    rcases mem_or_eq_of_mem_set hx with hx | rfl
    · exact h.valid x hx
    · exact hvalid
  · have hle : (!e.removed).toNat ≤ numValidEntries block := by
      cases hremoved : e.removed with
      | true => exact Nat.zero_le _
      | false =>
          refine countP_pos_iff.mpr ⟨e, mem_of_getElem? hi, ?_⟩
          rw [hremoved]
          rfl
    have hset := countP_set (p := fun e : BlockEntry => !e.removed) (a := f e) hlt
    rw [hget] at hset
    have hnat : ∀ b : Bool, (if b = true then 1 else 0) = b.toNat := by decide
    rw [hnat, hnat] at hset
    change countP _ (block.entries.set i (f e)) + _ = numValidEntries block + _
    rw [hset]
    rw [numValidEntries] at hle ⊢
    omega

theorem BlockSound.addIndexEntry (h : BlockSound block) (hrecord : record.isValid = true) :
    BlockSound (block.addIndexEntry bid key record).2 := by
  rw [CombinedEntryBlock.addIndexEntry]
  cases hfind : block.find key with
  | some e =>
      exact (h.change hfind (f := fun e => { e with bid, removed := false, record }) (fun _ => rfl)
        fun _ => hrecord).1
  | none =>
      dsimp only
      split_ifs
      · exact h
      · refine ⟨?_, ?_⟩
        · rw [map_append, nodup_append]
          refine ⟨h.nodup, nodup_singleton _, ?_⟩
          intro k hk k' hk' heq
          obtain ⟨x, hx, rfl⟩ := mem_map.mp hk
          have hnone := find?_eq_none.mp hfind x hx
          rw [map_singleton, mem_singleton] at hk'
          exact hnone (decide_eq_true (heq.trans hk'))
        · intro x hx hremoved
          rcases mem_append.mp hx with hx | hx
          · exact h.valid x hx hremoved
          · rw [mem_singleton.mp hx]
            exact hrecord

/-- A record is updated. -/
theorem numValidEntries_update (h : BlockSound block) (hrecord : record.isValid = true)
    {old : PackedItemRecord} (hentry : block.getIndexEntry key = some old) :
    numValidEntries (block.addIndexEntry bid key record).2 = numValidEntries block := by
  obtain ⟨e, hfind, hremoved, -⟩ := exists_find hentry
  have hchange := (h.change hfind (f := fun e => { e with bid, removed := false, record })
    (fun _ => rfl) fun _ => hrecord).2
  rw [hremoved] at hchange
  rw [CombinedEntryBlock.addIndexEntry, hfind]
  exact Nat.add_right_cancel hchange

/-- A record is added, in a slot of its own or in the one its key had. -/
theorem numValidEntries_add (h : BlockSound block) (hrecord : record.isValid = true)
    (hentry : block.getIndexEntry key = none)
    (hroom : ¬ (block.find key = none ∧ block.isFull = true)) :
    numValidEntries (block.addIndexEntry bid key record).2 = numValidEntries block + 1 := by
  rw [CombinedEntryBlock.addIndexEntry]
  cases hfind : block.find key with
  | some e =>
      rw [getIndexEntry_of_find hfind] at hentry
      have hremoved : e.removed = true := by
        by_contra hlive
        rw [if_neg hlive] at hentry
        cases hentry
      have hchange := (h.change hfind (f := fun e => { e with bid, removed := false, record })
        (fun _ => rfl) fun _ => hrecord).2
      rw [hremoved] at hchange
      exact hchange
  | none =>
      have hnot : block.isFull = false := by
        by_contra hfull
        exact hroom ⟨hfind, Bool.not_eq_false _ ▸ hfull⟩
      simp [hnot, numValidEntries]

theorem BlockSound.removeIndexEntry (h : BlockSound block) :
    BlockSound (block.removeIndexEntry key).2 := by
  rw [CombinedEntryBlock.removeIndexEntry]
  cases hfind : block.find key with
  | some e =>
      dsimp only
      split_ifs
      · exact h
      · exact (h.change hfind (f := fun e => { e with removed := true }) (fun _ => rfl) nofun).1
  | none => exact h

theorem numValidEntries_remove_none (hentry : block.getIndexEntry key = none) :
    numValidEntries (block.removeIndexEntry key).2 = numValidEntries block := by
  rw [CombinedEntryBlock.removeIndexEntry]
  cases hfind : block.find key with
  | some e =>
      rw [getIndexEntry_of_find hfind] at hentry
      dsimp only
      split_ifs with hremoved
      · rfl
      · rw [if_neg hremoved] at hentry
        exact nomatch hentry
  | none => rfl

theorem numValidEntries_remove (h : BlockSound block) {old : PackedItemRecord}
    (hentry : block.getIndexEntry key = some old) :
    numValidEntries (block.removeIndexEntry key).2 + 1 = numValidEntries block := by
  obtain ⟨e, hfind, hremoved, -⟩ := exists_find hentry
  have hchange := (h.change hfind (f := fun e => { e with removed := true }) (fun _ => rfl) nofun).2
  rw [hremoved] at hchange
  rw [CombinedEntryBlock.removeIndexEntry, hfind]
  dsimp only
  rw [hremoved]
  exact hchange

end

/-! ## The weight of a bucket -/

theorem weight_of_plain (cfg : Config) (hplain : (s.ht c).isCombinedEntry = false) :
    weight cfg s c = (s.ht c).isValid.toNat := by
  rw [weight, hplain]
  rfl

theorem weight_of_block (hmark : (s.ht c).isCombinedEntry = true) {block : CombinedEntryBlock}
    (hblock : s.combinedEntries (cfg.shardId c) c = some block) :
    weight cfg s c = numValidEntries block := by
  rw [weight, hmark, hblock]
  rfl

theorem weight_setRecord (cfg : Config) (s : State) (c : UInt64) {r : PackedItemRecord}
    (hplain : r.isCombinedEntry = false) :
    weight cfg (s.setRecord c r) = update (weight cfg s) c r.isValid.toNat := by
  funext b
  rw [weight, State.setRecord_ht]
  by_cases hb : b = c
  · rw [hb, update_self, if_pos rfl, hplain]
    rfl
  · rw [update_of_ne hb, if_neg hb]
    rfl

theorem weight_setBlock (cfg : Config) (hmark : (s.ht c).isCombinedEntry = true)
    (block : CombinedEntryBlock) :
    weight cfg (s.setBlock (cfg.shardId c) c block)
      = update (weight cfg s) c (numValidEntries block) := by
  funext b
  by_cases hb : b = c
  · rw [hb, update_self]
    exact weight_of_block (s := s.setBlock (cfg.shardId c) c block) hmark (State.setBlock_self _ _ _)
  · rw [update_of_ne hb, weight, State.setBlock_of_ne _ _ _ hb]
    rfl

/-- The bucket becomes a block. -/
theorem weight_create (cfg : Config) (s : State) (c : UInt64) (block : CombinedEntryBlock)
    (r : PackedItemRecord) :
    weight cfg ((s.setBlock (cfg.shardId c) c block).setRecord c r.setCombinedEntry)
      = update (weight cfg s) c (numValidEntries block) := by
  funext b
  by_cases hb : b = c
  · rw [hb, update_self]
    refine weight_of_block ?_ (State.setBlock_self _ _ _)
    rw [State.setRecord_ht, if_pos rfl]
    rfl
  · rw [update_of_ne hb, weight, State.setRecord_ht, if_neg hb]
    change (if (s.ht b).isCombinedEntry = true then
      ((s.setBlock (cfg.shardId c) c block).combinedEntries (cfg.shardId b) b).elim 0 numValidEntries
      else (s.ht b).isValid.toNat) = _
    rw [State.setBlock_of_ne _ _ _ hb]
    rfl

/-! ## Writes -/

/-- All blocks are sound. -/
def SoundBlocks (s : State) : Prop :=
  ∀ sid c block, s.combinedEntries sid c = some block → BlockSound block

theorem SoundBlocks.setBlock (h : SoundBlocks s) (sid c : UInt64) {block : CombinedEntryBlock}
    (hblock : BlockSound block) : SoundBlocks (s.setBlock sid c block) := by
  intro sid' b block' hblock'
  by_cases hb : b = c
  · by_cases hsid : sid' = sid
    · rw [hb, hsid, State.setBlock_self, some.injEq] at hblock'
      exact hblock' ▸ hblock
    · simp only [State.setBlock, update_of_ne hsid] at hblock'
      exact h sid' b block' hblock'
  · rw [State.setBlock_of_ne _ _ _ hb] at hblock'
    exact h sid' b block' hblock'

section

variable {lb : LockedBucket} {i : Fin 4} (hmarks : Marks cfg s) (hblocks : SoundBlocks s)
  (hslot : lb.slot = some (i, c)) (hsid : lb.sid = cfg.shardId c)

include hmarks hblocks hsid

theorem exists_block_of_mark (hmark : (s.ht c).isCombinedEntry = true) :
    ∃ block, s.combinedEntries lb.sid c = some block ∧ BlockSound block ∧
      weight cfg s c = numValidEntries block ∧
      (recordAt s lb.sid c lb.key).isValid = (block.getIndexEntry lb.key).isSome := by
  obtain ⟨block, hblock⟩ := isSome_iff_exists.mp ((hmarks.block_iff _ c).mpr ⟨rfl, hmark⟩)
  rw [hsid]
  refine ⟨block, hblock, hblocks _ _ _ hblock, weight_of_block hmark hblock, ?_⟩
  cases hentry : block.getIndexEntry lb.key with
  | none =>
      rw [recordAt_of_block_none hmark hblock hentry]
      rfl
  | some r =>
      have hr := (hblocks _ _ _ hblock).isValid hentry
      rw [recordAt_of_block_some hmark hblock hentry]
      exact hr

include hslot

theorem recordCount_updateRecord (hc : c < cfg.totalBuckets) {r : PackedItemRecord}
    (hplain : r.isCombinedEntry = false) (hvalid : r.isValid = true)
    (hroom : ∀ block, (s.ht c).isCombinedEntry = true → s.combinedEntries lb.sid c = some block →
      ¬ (block.find lb.key = none ∧ block.isFull = true)) :
    SoundBlocks (lb.updateRecord s r) ∧
      recordCount cfg (lb.updateRecord s r) + (recordAt s lb.sid c lb.key).isValid.toNat
        = recordCount cfg s + 1 := by
  cases hmark : (s.ht c).isCombinedEntry with
  | false =>
      rw [updateRecord_of_plain hslot r hmark, recordAt_of_plain hmark, ← weight_of_plain cfg hmark]
      refine ⟨hblocks, ?_⟩
      have hcount := recordCount_update hc (weight_setRecord cfg s c hplain)
      rw [hvalid] at hcount
      exact hcount
  | true =>
      obtain ⟨block, hblock, hsound, hweight, hrecord⟩ :=
        exists_block_of_mark hmarks hblocks hsid hmark
      rw [updateRecord_of_block hslot r hmark hblock, hrecord]
      refine ⟨hblocks.setBlock _ _ (hsound.addIndexEntry hvalid), ?_⟩
      rw [hsid]
      have hcount := recordCount_update hc
        (weight_setBlock cfg hmark (block.addIndexEntry c lb.key r).2)
      rw [hweight] at hcount
      cases hentry : block.getIndexEntry lb.key with
      | none =>
          rw [numValidEntries_add hsound hvalid hentry (hroom block hmark hblock)] at hcount
          change recordCount cfg _ + 0 = _
          omega
      | some old =>
          rw [numValidEntries_update hsound hvalid hentry] at hcount
          change recordCount cfg _ + 1 = _
          omega

theorem recordCount_removeRecord (hc : c < cfg.totalBuckets) :
    SoundBlocks (lb.removeRecord s) ∧
      recordCount cfg (lb.removeRecord s) + (recordAt s lb.sid c lb.key).isValid.toNat
        = recordCount cfg s := by
  cases hmark : (s.ht c).isCombinedEntry with
  | false =>
      have hremove : lb.removeRecord s = s.setRecord c {} := by
        simp [removeRecord, hslot, hmark]
      rw [hremove, recordAt_of_plain hmark, ← weight_of_plain cfg hmark]
      exact ⟨hblocks, recordCount_update hc (weight_setRecord cfg s c (r := {}) rfl)⟩
  | true =>
      obtain ⟨block, hblock, hsound, hweight, hrecord⟩ :=
        exists_block_of_mark hmarks hblocks hsid hmark
      have hremove : lb.removeRecord s = s.setBlock lb.sid c (block.removeIndexEntry lb.key).2 := by
        simp [removeRecord, hslot, hmark, hblock]
      rw [hremove, hrecord]
      refine ⟨hblocks.setBlock _ _ hsound.removeIndexEntry, ?_⟩
      rw [hsid]
      have hcount := recordCount_update hc
        (weight_setBlock cfg hmark (block.removeIndexEntry lb.key).2)
      rw [hweight] at hcount
      cases hentry : block.getIndexEntry lb.key with
      | none =>
          rw [numValidEntries_remove_none hentry] at hcount
          change recordCount cfg _ + 0 = _
          omega
      | some old =>
          have hremoved := numValidEntries_remove hsound hentry
          change recordCount cfg _ + 1 = _
          omega

theorem recordCount_updateNewAddress (hc : c < cfg.totalBuckets) {newAddress : UInt32}
    (haddress : newAddress ≠ 0) (hfound : (recordAt s lb.sid c lb.key).isValid = true) :
    SoundBlocks (lb.updateNewAddress s newAddress).1 ∧
      recordCount cfg (lb.updateNewAddress s newAddress).1 = recordCount cfg s := by
  have hvalid : ∀ r : PackedItemRecord,
      ({ r with address := newAddress, curHits := 0 } : PackedItemRecord).isValid = true :=
    fun _ => decide_eq_true haddress
  cases hmark : (s.ht c).isCombinedEntry with
  | false =>
      have hupdate : (lb.updateNewAddress s newAddress).1
          = s.setRecord c { s.ht c with address := newAddress, curHits := 0 } := by
        simp [updateNewAddress, hslot, hmark]
      rw [recordAt_of_plain hmark] at hfound
      rw [hupdate]
      refine ⟨hblocks, ?_⟩
      have hcount := recordCount_update hc (weight_setRecord cfg s c
        (r := { s.ht c with address := newAddress, curHits := 0 }) hmark)
      rw [weight_of_plain cfg hmark, hfound, hvalid] at hcount
      exact Nat.add_right_cancel hcount
  | true =>
      obtain ⟨block, hblock, hsound, hweight, hrecord⟩ :=
        exists_block_of_mark hmarks hblocks hsid hmark
      have hupdate : (lb.updateNewAddress s newAddress).1 = s.setBlock lb.sid c
          (block.addIndexEntry c lb.key { lb.record with address := newAddress, curHits := 0 }).2 := by
        simp [updateNewAddress, hslot, hmark, insertCombinedIndexEntry,
          hblock]
      rw [hrecord, isSome_iff_exists] at hfound
      obtain ⟨old, hentry⟩ := hfound
      rw [hupdate]
      refine ⟨hblocks.setBlock _ _ (hsound.addIndexEntry (hvalid _)), ?_⟩
      rw [hsid]
      have hcount := recordCount_update hc (weight_setBlock cfg hmark
        (block.addIndexEntry c lb.key { lb.record with address := newAddress, curHits := 0 }).2)
      rw [hweight, numValidEntries_update hsound (hvalid _) hentry] at hcount
      exact Nat.add_right_cancel hcount

end

theorem recordCount_bumpCurRecordHits (cfg : Config) (lb : LockedBucket) (s : State) :
    recordCount cfg (lb.bumpCurRecordHits s) = recordCount cfg s := by
  have hweight : weight cfg (lb.bumpCurRecordHits s) = weight cfg s := by
    unfold bumpCurRecordHits
    split
    · rfl
    · rename_i bid _
      funext b
      rw [weight, State.setRecord_ht]
      by_cases hb : b = bid
      · rw [if_pos hb, hb]
        rfl
      · rw [if_neg hb]
        rfl
  rw [recordCount, recordCount, hweight]

/-! ## Making room -/

/-- The home of an entry is in the table, whatever its slot. -/
theorem originalBucketId_lt (hfits : cfg.Fits) (hc : c < cfg.totalBuckets) (i : Fin 4) :
    cfg.originalBucketId c i < cfg.totalBuckets := by
  have hlt : c.toNat < cfg.totalBuckets.toNat := hc
  rw [UInt64.lt_iff_toNat_lt]
  by_cases hwrap : c.toNat % cfg.numBucketsPerShard.toNat < (kNextSlotOffset i).toNat
  · rw [hfits.toNat_originalBucketId_of_lt hwrap hc]
    have hend := hfits.shard_end_le hc
    have hdiv := Nat.div_add_mod' c.toNat cfg.numBucketsPerShard.toNat
    omega
  · rw [Config.toNat_originalBucketId_of_le (Nat.not_lt.mp hwrap)]
    omega

/-- An entry that is moved is counted at its new place. -/
theorem recordCount_emptySlot (hfits : cfg.Fits) {bid : UInt64} (hbid : bid < cfg.totalBuckets)
    (hsound : s.BlocksSound cfg) {i : Fin 4} (hempty : EmptySlot cfg s bid s' i) :
    recordCount cfg s' = recordCount cfg s := by
  cases hempty with
  | free _ _ => rfl
  | moved _ sub c hc hvalid hplain _ _ hfree =>
      have hlt : c < cfg.totalBuckets := hc ▸ (hfits.slot_spec hbid i).1
      have hhome := originalBucketId_lt hfits hlt (s.getBucketFillOffset c)
      obtain ⟨d, hd⟩ : ∃ d, d = cfg.calcSlotBucketId
          (cfg.originalBucketId c (s.getBucketFillOffset c)) sub := ⟨_, rfl⟩
      have hdlt : d < cfg.totalBuckets := hd ▸ (hfits.slot_spec hhome sub).1
      rw [← hd] at hfree ⊢
      have hne : d ≠ c := by
        rintro rfl
        rw [hvalid] at hfree
        exact Bool.noConfusion hfree
      have hdplain : (s.ht d).isCombinedEntry = false := by
        by_contra hmark
        rw [hsound.valid d (Bool.not_eq_false _ ▸ hmark)] at hfree
        exact Bool.noConfusion hfree
      have hto := recordCount_update hdlt (weight_setRecord cfg s d hplain)
      have hfrom := recordCount_update hlt
        (weight_setRecord cfg (s.setRecord d (s.ht c)) c (r := {}) rfl)
      rw [weight_setRecord cfg s d hplain, update_of_ne hne.symm, weight_of_plain cfg hplain,
        hvalid] at hfrom
      rw [weight_of_plain cfg hdplain, hfree, hvalid] at hto
      change recordCount cfg ((s.setRecord d (s.ht c)).setRecord c {}) = _
      change recordCount cfg ((s.setRecord d (s.ht c)).setRecord c {}) + 1 = _ + 0 at hfrom
      change _ + 0 = _ + 1 at hto
      omega

/-- What is locked for a key -/
structure LockedFor (cfg : Config) (s : State) (key : UInt64) (lb : LockedBucket) (i : Fin 4)
    (c : UInt64) : Prop where
  slot : lb.slot = some (i, c)
  slot_eq : c = cfg.calcSlotBucketId (cfg.bucketId key) i
  sid : lb.sid = cfg.shardId c
  lt : c < cfg.totalBuckets
  record : lb.record = recordAt s lb.sid c lb.key

theorem lockedFor (hfits : cfg.Fits) (s : State) (key : UInt64) (i : Fin 4) :
    LockedFor cfg s key (lockedBucket cfg s key (some i)) i
      (cfg.calcSlotBucketId (cfg.bucketId key) i) := by
  obtain ⟨hlt, hsid, -⟩ := hfits.slot_spec (hfits.accepted.bucketId_lt key) i
  exact ⟨rfl, rfl, hsid.symm, hlt, rfl⟩

/-- Room is made without changing what is counted. -/
theorem recordCount_lockForInsert (hfits : cfg.Fits) (hmarks : Marks cfg s) (hblocks : SoundBlocks s)
    {lb : LockedBucket} (hlock : lockForInsert cfg s retrieveKey key = (s₁, lb)) :
    SoundBlocks s₁ ∧ recordCount cfg s₁ = recordCount cfg s ∧
      computeSize cfg s₁ = computeSize cfg s := by
  have hbid := hfits.accepted.bucketId_lt key
  have hdecided := decided cfg s retrieveKey (cfg.bucketId key) key
  obtain rfl : (decideBucketSlotOffset cfg s retrieveKey (cfg.bucketId key) key).1 = s₁ :=
    congrArg Prod.fst hlock
  generalize decideBucketSlotOffset cfg s retrieveKey (cfg.bucketId key) key = p at hdecided
  obtain ⟨s₁, i⟩ := p
  dsimp only at hdecided ⊢
  cases hdecided with
  | existing _ _ => exact ⟨hblocks, rfl, rfl⟩
  | room _ _ _ hroom =>
      have hempty := (findOrMakeEmptySlot_some hroom).1
      refine ⟨?_, recordCount_emptySlot hfits hbid hmarks.sound hempty, ?_⟩
      · intro sid b block hblock
        rw [hempty.combinedEntries_eq] at hblock
        exact hblocks sid b block hblock
      · cases hempty <;> rfl
  | combined _ _ _ _ _ => exact ⟨hblocks, rfl, rfl⟩
  | created key' c hc _ hfull _ hnone _ =>
      have hvalid : (s.ht c).isValid = true :=
        hc ▸ isValid_of_findOrMakeEmptySlot hfull 0 (mem_slotOffsets 0)
      have hplain : (s.ht c).isCombinedEntry = false := hc ▸ hnone 0
      rw [calcSlotBucketId_zero hfits.accepted hbid] at hc
      subst hc
      -- the entry of the bucket is the one entry of its block
      have hnew : BlockSound (newBlock (cfg.bucketId key) key' (s.ht (cfg.bucketId key))) := by
        refine ⟨nodup_singleton _, fun e he _ => ?_⟩
        rw [mem_singleton.mp he]
        exact hvalid
      refine ⟨hblocks.setBlock _ _ hnew, ?_, rfl⟩
      have hcount := recordCount_update hbid (weight_create cfg s (cfg.bucketId key)
        (newBlock (cfg.bucketId key) key' (s.ht (cfg.bucketId key))) (s.ht (cfg.bucketId key)))
      rw [weight_of_plain cfg hplain, hvalid] at hcount
      exact Nat.add_right_cancel hcount
  | replaced _ _ _ => exact ⟨hblocks, rfl, rfl⟩

theorem lockedFor_of_insert (hfits : cfg.Fits) {lb : LockedBucket}
    (hlock : lockForInsert cfg s retrieveKey key = (s₁, lb)) :
    ∃ i c, LockedFor cfg s₁ key lb i c ∧ (¬ GoesToFullBlock cfg s retrieveKey key →
      ∀ block, (s₁.ht c).isCombinedEntry = true → s₁.combinedEntries lb.sid c = some block →
        ¬ (block.find lb.key = none ∧ block.isFull = true)) := by
  obtain ⟨rfl, rfl⟩ := hlock
  refine ⟨_, _, lockedFor hfits _ key _, fun hroom block hmark hblock hfull => hroom ?_⟩
  exact ⟨hmark, block, hblock, hfull⟩

/-- A key that is looked for has a slot, or there is nothing to be done. -/
theorem lockExisting_slot (hfits : cfg.Fits) (s : State) (key : UInt64) :
    (lockExisting cfg s key).slot = none ∧ (lockExisting cfg s key).record.isValid = false ∨
      ∃ i c, LockedFor cfg s key (lockExisting cfg s key) i c := by
  rw [lockExisting]
  cases checkBucketSlotOffset cfg s (cfg.bucketId key) key with
  | none => exact Or.inl ⟨rfl, rfl⟩
  | some i => exact Or.inr ⟨i, _, lockedFor hfits s key i⟩

theorem lockedFor_of_existing (hfits : cfg.Fits)
    (hvalid : (lockExisting cfg s key).record.isValid = true) :
    ∃ i c, LockedFor cfg s key (lockExisting cfg s key) i c := by
  refine (lockExisting_slot hfits s key).resolve_left fun hnone => ?_
  rw [hnone.2] at hvalid
  exact Bool.noConfusion hvalid

/-! ## Runs -/

section

variable (cfg : Config) (lb : LockedBucket) (s : State)

theorem computeSize_updateRecord (r : PackedItemRecord) :
    computeSize cfg (lb.updateRecord s r) = computeSize cfg s := by
  unfold updateRecord insertCombinedIndexEntry
  split
  · rfl
  · split_ifs
    · rfl
    · split <;> rfl

theorem computeSize_updateNewAddress (newAddress : UInt32) :
    computeSize cfg (lb.updateNewAddress s newAddress).1 = computeSize cfg s := by
  unfold updateNewAddress insertCombinedIndexEntry
  split
  · rfl
  · split_ifs
    · rfl
    · split <;> rfl

theorem computeSize_removeRecord : computeSize cfg (lb.removeRecord s) = computeSize cfg s := by
  unfold removeRecord
  split
  · rfl
  · split_ifs
    · rfl
    · split <;> rfl

theorem computeSize_bumpCurRecordHits :
    computeSize cfg (lb.bumpCurRecordHits s) = computeSize cfg s := by
  unfold bumpCurRecordHits
  split <;> rfl

end

/-- The blocks are sound, and the counters say how many records there are. -/
structure Counted (cfg : Config) (s : State) : Prop where
  marks : Marks cfg s
  blocks : SoundBlocks s
  count : computeSize cfg s = UInt64.ofNat (recordCount cfg s)

theorem Op.CountsRight.store {op : Op} {address : UInt32} {sizeHint : UInt16}
    (hright : op.CountsRight cfg s retrieveKey)
    (hop : op = .insert key address sizeHint ∨ op = .insertIfNotExists key address sizeHint) :
    address ≠ 0 ∧ ¬ GoesToFullBlock cfg s retrieveKey key := by
  rcases hop with rfl | rfl <;> exact hright

theorem Counted.perform (hfits : cfg.Fits) (h : Counted cfg s) {op : Op}
    (hright : op.CountsRight cfg s retrieveKey) (hop : Performed cfg s retrieveKey op s') :
    SoundBlocks s' ∧ computeSize cfg s' = UInt64.ofNat (recordCount cfg s') := by
  cases hop with
  | unchanged _ => exact ⟨h.blocks, h.count⟩
  | bumped key _ =>
      refine ⟨?_, by rw [recordCount_bumpCurRecordHits, computeSize_bumpCurRecordHits, h.count]⟩
      unfold bumpCurRecordHits
      split <;> exact h.blocks
  | updated key address sizeHint s₁ lb hlock hvalid =>
      obtain ⟨hblocks, hrecords, hsize⟩ := recordCount_lockForInsert hfits h.marks h.blocks hlock
      obtain ⟨i, c, hlocked, hroom⟩ := lockedFor_of_insert hfits hlock
      obtain ⟨hblocks', hcount⟩ := recordCount_updateRecord
        (h.marks.lockForInsert hfits.accepted hlock) hblocks hlocked.slot hlocked.sid hlocked.lt
        (PackedItemRecord.make_isCombinedEntry address sizeHint 0) (decide_eq_true hright.1)
        (hroom hright.2)
      rw [← hlocked.record, hvalid] at hcount
      refine ⟨hblocks', ?_⟩
      rw [computeSize_updateRecord, Nat.add_right_cancel hcount, hsize, hrecords, h.count]
  | found key address sizeHint _ lb hlock =>
      obtain ⟨hblocks, hrecords, hsize⟩ := recordCount_lockForInsert hfits h.marks h.blocks hlock
      exact ⟨hblocks, by rw [hsize, hrecords, h.count]⟩
  | stored key address sizeHint s₁ lb hlock hinvalid _ hop =>
      obtain ⟨haddress, hnotFull⟩ := hright.store hop
      obtain ⟨hblocks, hrecords, hsize⟩ := recordCount_lockForInsert hfits h.marks h.blocks hlock
      have hmarks := h.marks.lockForInsert hfits.accepted hlock
      obtain ⟨i, c, hlocked, hroom⟩ := lockedFor_of_insert hfits hlock
      obtain ⟨hblocks', hcount⟩ := recordCount_updateRecord
        (s := lb.countValid s₁ (· + 1)) (hmarks.same (.countValid lb _) (hmarks.sound.countValid lb _))
        hblocks hlocked.slot hlocked.sid hlocked.lt
        (PackedItemRecord.make_isCombinedEntry address sizeHint 0) (decide_eq_true haddress)
        (hroom hnotFull)
      change _ + (recordAt s₁ lb.sid c lb.key).isValid.toNat = recordCount cfg s₁ + 1 at hcount
      rw [← hlocked.record, hinvalid] at hcount
      refine ⟨hblocks', ?_⟩
      have hsid : lb.sid = cfg.shardId (cfg.bucketId key) := by
        rw [hlocked.sid, hlocked.slot_eq]
        exact hfits.accepted.shardId_calcSlotBucketId (hfits.accepted.bucketId_lt key) i
      rw [computeSize_updateRecord, computeSize_countValid hfits.accepted lb s₁ 1 hsid, hsize,
        h.count, ← hrecords]
      exact (UInt64.ofNat_add _ _).symm.trans (congrArg UInt64.ofNat hcount.symm)
  | replaced key newAddress _ hvalid =>
      obtain ⟨i, c, hlocked⟩ := lockedFor_of_existing hfits hvalid
      obtain ⟨hblocks', hcount⟩ := recordCount_updateNewAddress h.marks h.blocks hlocked.slot
        hlocked.sid hlocked.lt hright (hlocked.record ▸ hvalid)
      exact ⟨hblocks', by rw [hcount, computeSize_updateNewAddress, h.count]⟩
  | removed key hvalid _ =>
      obtain ⟨i, c, hlocked⟩ := lockedFor_of_existing hfits hvalid
      obtain ⟨hblocks', hcount⟩ := recordCount_removeRecord h.marks h.blocks hlocked.slot
        hlocked.sid hlocked.lt
      rw [← hlocked.record, hvalid] at hcount
      refine ⟨hblocks', ?_⟩
      have hsid : (lockExisting cfg s key).sid = cfg.shardId (cfg.bucketId key) :=
        lockedBucket_sid cfg s key _
      have hdown : ∀ n : UInt64, n - 1 = n + (-1) := fun n => UInt64.sub_eq_add_neg n 1
      simp only [hdown]
      rw [computeSize_countValid hfits.accepted _ _ _ hsid, computeSize_removeRecord, h.count, ← hcount]
      change _ = UInt64.ofNat (recordCount cfg ((lockExisting cfg s key).removeRecord s))
      rw [← hdown, UInt64.ofNat_add]
      exact UInt64.add_sub_cancel _ _
  | notFound key hinvalid =>
      rw [computeSize_removeRecord, h.count]
      rcases lockExisting_slot hfits s key with ⟨hnone, -⟩ | ⟨i, c, hlocked⟩
      · have hsame : (lockExisting cfg s key).removeRecord s = s := by
          rw [removeRecord, hnone]
        rw [hsame]
        exact ⟨h.blocks, rfl⟩
      · obtain ⟨hblocks', hcount⟩ := recordCount_removeRecord h.marks h.blocks hlocked.slot
          hlocked.sid hlocked.lt
        rw [← hlocked.record, hinvalid] at hcount
        exact ⟨hblocks', congrArg UInt64.ofNat hcount.symm⟩

theorem computeSizeLoop_zero (n : ℕ) : computeSizeLoop (fun _ => 0) n = 0 := by
  induction n with
  | zero => rfl
  | succ n ih =>
      rw [computeSizeLoop, ih]
      rfl

theorem counted_empty (cfg : Config) : Counted cfg {} := by
  refine ⟨marks_empty cfg, nofun, ?_⟩
  have hnone : recordCount cfg {} = 0 := Finset.sum_eq_zero fun _ _ => rfl
  rw [hnone]
  exact computeSizeLoop_zero _

theorem Counted.step (hfits : cfg.Fits) (h : Counted cfg s) {e : Event}
    (hright : CountsRight cfg s e) (hstep : lifeStep cfg s e = some s') : Counted cfg s' := by
  have hkeeps : KeepsBlocks cfg s e := by
    cases e with
    | call _ => trivial
    | reset => trivial
    | recover => exact hright
  have hmarks := h.marks.step hfits.accepted hkeeps hstep
  cases e with
  | call call =>
      simp only [lifeStep, FixedSizeIndex.step, ite_none_right_eq_some, some.injEq]
        at hstep
      obtain ⟨-, rfl⟩ := hstep
      obtain ⟨hblocks, hcount⟩ := h.perform hfits hright (performed cfg s call.retrieveKey call.op)
      exact ⟨hmarks, hblocks, hcount⟩
  | reset =>
      simp only [lifeStep, ite_none_right_eq_some, some.injEq] at hstep
      obtain ⟨-, rfl⟩ := hstep
      rw [h.marks.reset_eq hfits.accepted]
      exact counted_empty cfg
  | recover =>
      obtain rfl : recover s = s' := some.inj hstep
      rw [h.marks.recover_eq hkeeps]
      exact h

/-- In every run of an index in its table in which no insert goes to a full block and no mark is
taken over by a `recover`, `computeSize` is the number of records that are found, as a 64-bit
number. -/
theorem computeSize_of_exec (hfits : cfg.Fits) {events : List Event}
    (hrun : exec (lifeStep cfg) {} (.reset :: events) = some s)
    (hright : Along (lifeStep cfg) (CountsRight cfg) {} (.reset :: events)) :
    (computeSize cfg s).toNat = recordCount cfg s % 2 ^ 64 := by
  have hcounted : Counted cfg s := exec_invariant_along
    (fun s e t hinv hright hstep => hinv.step hfits hright hstep) hrun hright (counted_empty cfg)
  rw [hcounted.count, UInt64.toNat_ofNat']

/-- One shard of 128 buckets -/
def oneShard : BlockCacheIndexConfig := { largerMutex with numBucketsPerChunkPower := 7 }

theorem oneShard_fits : (createIndex oneShard true).Fits :=
  ⟨accepted_of_validate true rfl rfl, by decide, ⟨1, by decide⟩⟩

/-- Keys with the same home and different bits, which the callback reads back from their
addresses. -/
def insertKey (n : ℕ) : Event :=
  .call { op := .insert (UInt64.ofNat n <<< 40) (UInt32.ofNat (n + 1)) 100
          retrieveKey := fun address => some (UInt64.ofNat (address.toNat - 1) <<< 40)
          reply := .record none }

instance (cfg : Config) (s : State) (retrieveKey : UInt32 → Option UInt64) (key : UInt64) :
    Decidable (GoesToFullBlock cfg s retrieveKey key) :=
  let p := decideBucketSlotOffset cfg s retrieveKey (cfg.bucketId key) key
  let c := cfg.calcSlotBucketId (cfg.bucketId key) p.2
  decidable_of_iff ((p.1.ht c).isCombinedEntry = true ∧
      (p.1.combinedEntries (cfg.shardId (cfg.bucketId key)) c).any
        (fun block => (block.find key).isNone && block.isFull) = true)
    (by simp [GoesToFullBlock, p, c, Option.any_eq_true])

instance (cfg : Config) (s : State) (retrieveKey : UInt32 → Option UInt64) (op : Op) :
    Decidable (op.CountsRight cfg s retrieveKey) :=
  match op with
  | .insert _ address _ | .insertIfNotExists _ address _ =>
      inferInstanceAs (Decidable (address ≠ 0 ∧ _))
  | .replaceIfMatch _ newAddress _ => inferInstanceAs (Decidable (newAddress ≠ 0))
  | .lookup _ | .remove _ | .removeIfMatch _ _ => isTrue trivial

/-- `CountsRight`, decided where nothing is recovered -/
def countsRightCall (cfg : Config) (s : State) : Event → Bool
  | .call c => decide (c.op.CountsRight cfg s c.retrieveKey)
  | .reset => true
  | .recover => false

/-- Five keys, of which the last one makes a block of their home -/
theorem computeSize_of_exec_fiveKeys :
    ∃ s, exec (lifeStep (createIndex oneShard true)) {} (.reset :: (range 5).map insertKey)
        = some s ∧
      (s.ht ((createIndex oneShard true).bucketId 0)).isCombinedEntry = true ∧
      computeSize (createIndex oneShard true) s = 5 ∧
      (computeSize (createIndex oneShard true) s).toNat
        = recordCount (createIndex oneShard true) s % 2 ^ 64 := by
  let cfg := createIndex oneShard true
  let events := .reset :: (range 5).map insertKey
  obtain ⟨s, hrun, hmark, hsize⟩ : ∃ s, exec (lifeStep cfg) {} events = some s ∧
      (s.ht (cfg.bucketId 0)).isCombinedEntry = true ∧ computeSize cfg s = 5 := by decide +kernel
  have hcheck : Along (lifeStep cfg) (fun s e => countsRightCall cfg s e = true) {} events := by
    decide +kernel
  have hright : Along (lifeStep cfg) (CountsRight cfg) {} events := by
    refine hcheck.mono fun s e he => ?_
    cases e with
    | call c => exact (decide_eq_true_iff.mp he : c.op.CountsRight cfg s c.retrieveKey)
    | reset => trivial
    | recover => exact Bool.noConfusion he
  exact ⟨s, hrun, hmark, hsize, computeSize_of_exec oneShard_fits hrun hright⟩

/-- The home of 144 keys: three are in the other slots, 140 are in the block the home has become,
and the last one is refused and counted. -/
theorem counted_and_refused :
    ∃ s, exec (lifeStep (createIndex oneShard true)) {} (.reset :: (range 144).map insertKey)
        = some s ∧
      computeSize (createIndex oneShard true) s = 144 ∧
      recordCount (createIndex oneShard true) s = 143 := by
  decide +kernel

end CacheLib.Navy.FixedSizeIndex
