/-
The combined entry marks of a `FixedSizeIndex`, and the blocks they stand for.

A mark is in the table and a block is in a map beside it, so the two have different lives: the table
may be in shared memory, from where the next index attaches it, and the blocks are gone with the
index that had them. As long as no mark is taken over by a `recover`, the marks are exactly those of
the blocks (`Marks`), and an operation that goes to a block finds it.
-/
import CacheLib.Navy.IndexOverflow

set_option autoImplicit false

namespace CacheLib.Navy.FixedSizeIndex

open Transition

variable {cfg : Config} {s s' s₁ : State} {retrieveKey : UInt32 → Option UInt64} {key c : UInt64}

/-! ## The life of an index -/

/-- `reset`: the memory is new and zero, and the maps of all shards are cleared. -/
def reset (cfg : Config) (s : State) : State where
  combinedEntries sid bid :=
    if cfg.handleOverflow && sid < cfg.totalShards then none else s.combinedEntries sid bid

/-- `recover` of an index made after a shutdown: the table is attached as it was left, with no blocks
beside it. A `recover` that throws is followed by a `reset`. -/
def recover (s : State) : State := { s with combinedEntries := fun _ _ => none }

inductive Event where
  | call (c : Call)
  | reset
  | recover

/-- The shards are counted in 32 bits by `reset`, which does not end if there are more. -/
def lifeStep (cfg : Config) (s : State) : Event → Option State
  | .call c => step cfg s c
  | .reset => if cfg.totalShards.toNat < 2 ^ 32 then some (reset cfg s) else none
  | .recover => some (recover s)

/-- The bucket is marked and its block is not there. All accesses to a block are made through a
locked bucket. -/
def LockedBucket.MissesBlock (lb : LockedBucket) (s : State) : Prop :=
  ∃ i bid, lb.slot = some (i, bid) ∧ (s.ht bid).isCombinedEntry = true ∧
    s.combinedEntries lb.sid bid = none

/-- Nothing is lost when the table is attached again. -/
def KeepsBlocks (cfg : Config) (s : State) : Event → Prop
  | .recover => ∀ bid < cfg.totalBuckets, (s.ht bid).isCombinedEntry = false
  | _ => True

/-! ## What an operation does -/

/-- The states an operation can end in -/
inductive Performed (cfg : Config) (s : State) (retrieveKey : UInt32 → Option UInt64) :
    Op → State → Prop
  | unchanged (op : Op) : Performed cfg s retrieveKey op s
  | bumped (key : UInt64) (hvalid : (lockExisting cfg s key).record.isValid = true) :
      Performed cfg s retrieveKey (.lookup key) ((lockExisting cfg s key).bumpCurRecordHits s)
  | updated (key : UInt64) (address : UInt32) (sizeHint : UInt16) (s₁ : State) (lb : LockedBucket)
      (hlock : lockForInsert cfg s retrieveKey key = (s₁, lb)) (hvalid : lb.record.isValid = true) :
      Performed cfg s retrieveKey (.insert key address sizeHint)
        (lb.updateRecord s₁ (.make address sizeHint 0))
  | found (key : UInt64) (address : UInt32) (sizeHint : UInt16) (s₁ : State) (lb : LockedBucket)
      (hlock : lockForInsert cfg s retrieveKey key = (s₁, lb)) :
      Performed cfg s retrieveKey (.insertIfNotExists key address sizeHint) s₁
  | stored (key : UInt64) (address : UInt32) (sizeHint : UInt16) (s₁ : State) (lb : LockedBucket)
      (hlock : lockForInsert cfg s retrieveKey key = (s₁, lb)) (hinvalid : lb.record.isValid = false)
      (op : Op)
      (hop : op = .insert key address sizeHint ∨ op = .insertIfNotExists key address sizeHint) :
      Performed cfg s retrieveKey op
        (lb.updateRecord (lb.countValid s₁ (· + 1)) (.make address sizeHint 0))
  | replaced (key : UInt64) (newAddress oldAddress : UInt32)
      (hvalid : (lockExisting cfg s key).record.isValid = true) :
      Performed cfg s retrieveKey (.replaceIfMatch key newAddress oldAddress)
        ((lockExisting cfg s key).updateNewAddress s newAddress).1
  | removed (key : UInt64) (hvalid : (lockExisting cfg s key).record.isValid = true) (op : Op) :
      Performed cfg s retrieveKey op
        ((lockExisting cfg s key).countValid ((lockExisting cfg s key).removeRecord s) (· - 1))
  | notFound (key : UInt64) (hinvalid : (lockExisting cfg s key).record.isValid = false) :
      Performed cfg s retrieveKey (.remove key) ((lockExisting cfg s key).removeRecord s)

theorem LockedBucket.removeRecord_countValid (lb : LockedBucket) (s : State)
    (change : UInt64 → UInt64) :
    lb.removeRecord (lb.countValid s change) = lb.countValid (lb.removeRecord s) change := by
  unfold LockedBucket.removeRecord LockedBucket.countValid
  split
  · rfl
  · rename_i bid _
    dsimp only
    split
    · rfl
    · split <;> rfl

theorem performed (cfg : Config) (s : State) (retrieveKey : UInt32 → Option UInt64) (op : Op) :
    Performed cfg s retrieveKey op (perform cfg s retrieveKey op).1 := by
  cases op with
  | lookup key =>
      simp only [perform, Prod.map, lookup, id]
      split_ifs with hvalid
      · exact .bumped key hvalid
      · exact .unchanged _
  | insert key address sizeHint =>
      simp only [perform, Prod.map, insert, id]
      split_ifs with hvalid
      · exact .updated key address sizeHint _ _ rfl hvalid
      · exact .stored key address sizeHint _ _ rfl (Bool.not_eq_true _ ▸ hvalid) _ (Or.inl rfl)
  | insertIfNotExists key address sizeHint =>
      simp only [perform, Prod.map, insertIfNotExists, id]
      split_ifs with hvalid
      · exact .found key address sizeHint _ _ rfl
      · exact .stored key address sizeHint _ _ rfl (Bool.not_eq_true _ ▸ hvalid) _ (Or.inr rfl)
  | replaceIfMatch key newAddress oldAddress =>
      simp only [perform, Prod.map, replaceIfMatch, id]
      split_ifs with hmatch
      · exact .replaced key newAddress oldAddress (Bool.and_eq_true _ _ ▸ hmatch).1
      · exact .unchanged _
  | remove key =>
      simp only [perform, Prod.map, remove, id]
      split_ifs with hvalid
      · rw [LockedBucket.removeRecord_countValid]
        exact .removed key hvalid _
      · exact .notFound key (Bool.not_eq_true _ ▸ hvalid)
  | removeIfMatch key address =>
      simp only [perform, Prod.map, removeIfMatch, id]
      split_ifs with hmatch
      · exact .removed key (Bool.and_eq_true _ _ ▸ hmatch).1 _
      · exact .unchanged _

/-! ## Marks that stay -/

/-- The same buckets are marked, and have blocks. -/
structure SameMarks (s s' : State) : Prop where
  combined : ∀ c, (s'.ht c).isCombinedEntry = (s.ht c).isCombinedEntry
  isSome : ∀ sid c, (s'.combinedEntries sid c).isSome = (s.combinedEntries sid c).isSome

namespace SameMarks

theorem refl (s : State) : SameMarks s s := ⟨fun _ => rfl, fun _ _ => rfl⟩

theorem trans (h : SameMarks s s₁) (h' : SameMarks s₁ s') : SameMarks s s' :=
  ⟨fun c => (h'.combined c).trans (h.combined c), fun sid c => (h'.isSome sid c).trans (h.isSome sid c)⟩

theorem setRecord {r : PackedItemRecord} (hr : r.isCombinedEntry = (s.ht c).isCombinedEntry) :
    SameMarks s (s.setRecord c r) := by
  refine ⟨fun b => ?_, fun _ _ => rfl⟩
  rw [State.setRecord_ht]
  split_ifs with hb
  · rw [hr, hb]
  · rfl

theorem setBlock {sid : UInt64}
    (hblock : (s.combinedEntries sid c).isSome = true) (block' : CombinedEntryBlock) :
    SameMarks s (s.setBlock sid c block') := by
  refine ⟨fun _ => rfl, fun sid' b => ?_⟩
  by_cases hb : b = c
  · by_cases hsid : sid' = sid
    · rw [hb, hsid, State.setBlock_self, hblock]
      rfl
    · simp only [State.setBlock, Function.update_of_ne hsid]
  · rw [State.setBlock_of_ne _ _ _ hb]

theorem updateRecord (lb : LockedBucket) {r : PackedItemRecord} (hr : r.isCombinedEntry = false) :
    SameMarks s (lb.updateRecord s r) := by
  unfold LockedBucket.updateRecord
  split
  · exact refl s
  · rename_i i bid _
    split_ifs with hplain
    · have hset : SameMarks s (s.setRecord bid r) := setRecord (by simpa [hr] using hplain)
      exact ⟨hset.combined, hset.isSome⟩
    · unfold LockedBucket.insertCombinedIndexEntry
      split
      · exact refl s
      · rename_i block hblock
        exact setBlock (by rw [hblock]; rfl) _

theorem updateNewAddress (lb : LockedBucket) (newAddress : UInt32) :
    SameMarks s (lb.updateNewAddress s newAddress).1 := by
  unfold LockedBucket.updateNewAddress
  split
  · exact refl s
  · split_ifs with hplain
    · exact setRecord rfl
    · unfold LockedBucket.insertCombinedIndexEntry
      split
      · exact refl s
      · rename_i block hblock
        exact setBlock (by rw [hblock]; rfl) _

theorem removeRecord (lb : LockedBucket) : SameMarks s (lb.removeRecord s) := by
  unfold LockedBucket.removeRecord
  split
  · exact refl s
  · split_ifs with hplain
    · exact setRecord (Bool.not_eq_true' _ ▸ hplain).symm
    · split
      · exact refl s
      · rename_i block hblock
        exact setBlock (by rw [hblock]; rfl) _

theorem countValid (lb : LockedBucket) (change : UInt64 → UInt64) :
    SameMarks s (lb.countValid s change) :=
  ⟨fun _ => rfl, fun _ _ => rfl⟩

theorem bumpCurRecordHits (lb : LockedBucket) : SameMarks s (lb.bumpCurRecordHits s) := by
  unfold LockedBucket.bumpCurRecordHits
  split
  · exact refl s
  · exact setRecord rfl

/-- A block is in use, so that it neither moves nor is moved to. -/
theorem emptySlot (hsound : s.BlocksSound cfg) {bid : UInt64} {i : Fin 4}
    (hempty : EmptySlot cfg s bid s' i) : SameMarks s s' := by
  refine ⟨fun b => ?_, fun _ _ => by rw [hempty.combinedEntries_eq]⟩
  rw [Bool.eq_iff_iff]
  refine ⟨hempty.combined_before, fun hb => ?_⟩
  have hne : b ≠ cfg.calcSlotBucketId bid i := by
    intro heq
    rw [hempty.plain_before hsound heq] at hb
    exact Bool.noConfusion hb
  rw [(hempty.unchanged (hsound.valid b hb) hne).1]
  exact hb

end SameMarks

/-! ## Marks and blocks -/

/-- The marked buckets are in the table, and there is a block for each of them and no other. -/
structure Marks (cfg : Config) (s : State) : Prop where
  sound : s.BlocksSound cfg
  inTable : ∀ c, (s.ht c).isCombinedEntry = true → c < cfg.totalBuckets
  block_iff : ∀ sid c, (s.combinedEntries sid c).isSome = true ↔
    sid = cfg.shardId c ∧ (s.ht c).isCombinedEntry = true

theorem Marks.same (h : Marks cfg s) (hsame : SameMarks s s') (hsound : s'.BlocksSound cfg) :
    Marks cfg s' := by
  refine ⟨hsound, fun c hc => h.inTable c (hsame.combined c ▸ hc), fun sid c => ?_⟩
  rw [hsame.isSome, hsame.combined]
  exact h.block_iff sid c

/-- The home bucket becomes a block. -/
theorem Marks.create (h : Marks cfg s) (hoverflow : cfg.handleOverflow = true)
    (hc : c < cfg.totalBuckets) (block : CombinedEntryBlock) (r : PackedItemRecord) :
    Marks cfg ((s.setBlock (cfg.shardId c) c block).setRecord c r.setCombinedEntry) := by
  have hmark : ∀ b, (((s.setBlock (cfg.shardId c) c block).setRecord c r.setCombinedEntry).ht
      b).isCombinedEntry = true ↔ b = c ∨ (s.ht b).isCombinedEntry = true := by
    intro b
    rw [State.setRecord_ht]
    split_ifs with hb
    · exact ⟨fun _ => Or.inl hb, fun _ => rfl⟩
    · exact ⟨Or.inr, fun h => h.resolve_left hb⟩
  refine ⟨h.sound.create hoverflow c block r, fun b hb => ?_, fun sid b => ?_⟩
  · rcases (hmark b).mp hb with rfl | hold
    · exact hc
    · exact h.inTable b hold
  · rw [hmark]
    change ((s.setBlock (cfg.shardId c) c block).combinedEntries sid b).isSome = true ↔ _
    by_cases hb : b = c
    · subst hb
      by_cases hsid : sid = cfg.shardId b
      · rw [hsid, State.setBlock_self]
        exact ⟨fun _ => ⟨rfl, Or.inl rfl⟩, fun _ => rfl⟩
      · simp only [State.setBlock, Function.update_of_ne hsid]
        rw [h.block_iff]
        exact ⟨fun hmark => absurd hmark.1 hsid, fun hmark => absurd hmark.1 hsid⟩
    · rw [State.setBlock_of_ne _ _ _ hb, h.block_iff]
      exact and_congr_right fun _ => ⟨Or.inr, fun h => h.resolve_left hb⟩

theorem Marks.lockForInsert (haccepted : cfg.Accepted) (h : Marks cfg s) {lb : LockedBucket}
    (hlock : lockForInsert cfg s retrieveKey key = (s₁, lb)) : Marks cfg s₁ := by
  have hsound := blocksSound_lockForInsert haccepted h.sound retrieveKey key
  have hbid := haccepted.bucketId_lt key
  have hdecided := decided cfg s retrieveKey (cfg.bucketId key) key
  obtain rfl : (decideBucketSlotOffset cfg s retrieveKey (cfg.bucketId key) key).1 = s₁ :=
    congrArg Prod.fst hlock
  rw [FixedSizeIndex.lockForInsert] at hsound
  dsimp only at hsound
  generalize decideBucketSlotOffset cfg s retrieveKey (cfg.bucketId key) key = p at hdecided hsound
  obtain ⟨s₁, i⟩ := p
  dsimp only at hdecided hsound ⊢
  cases hdecided with
  | existing _ _ => exact h
  | room _ _ _ hroom => exact h.same (.emptySlot h.sound (findOrMakeEmptySlot_some hroom).1) hsound
  | combined _ _ _ _ _ => exact h
  | created key' c hc _ _ hoverflow _ _ =>
      rw [calcSlotBucketId_zero haccepted hbid] at hc
      subst hc
      exact h.create hoverflow hbid _ _
  | replaced _ _ _ => exact h

theorem Marks.perform (haccepted : cfg.Accepted) (h : Marks cfg s) {op : Op}
    (hsound : s'.BlocksSound cfg) (hop : Performed cfg s retrieveKey op s') : Marks cfg s' := by
  cases hop with
  | unchanged _ => exact h
  | bumped key _ => exact h.same (.bumpCurRecordHits _) hsound
  | updated key address sizeHint s₁ lb hlock _ =>
      exact (h.lockForInsert haccepted hlock).same
        (.updateRecord lb (PackedItemRecord.make_isCombinedEntry _ _ _)) hsound
  | found key address sizeHint _ lb hlock => exact h.lockForInsert haccepted hlock
  | stored key address sizeHint s₁ lb hlock _ _ _ =>
      exact (h.lockForInsert haccepted hlock).same ((SameMarks.countValid lb _).trans
        (.updateRecord lb (PackedItemRecord.make_isCombinedEntry _ _ _))) hsound
  | replaced key newAddress _ _ => exact h.same (.updateNewAddress _ newAddress) hsound
  | removed key _ _ => exact h.same ((SameMarks.removeRecord _).trans (.countValid _ _)) hsound
  | notFound key _ => exact h.same (.removeRecord _) hsound

/-! ## Runs -/

theorem marks_empty (cfg : Config) : Marks cfg {} := by
  refine ⟨blocksSound_empty cfg, fun c hc => absurd hc Bool.false_ne_true, fun sid c => ?_⟩
  exact ⟨fun h => absurd h Bool.false_ne_true, fun h => absurd h.2 Bool.false_ne_true⟩

/-- The shards of the buckets are those that are cleared. -/
theorem shardId_lt_totalShards (haccepted : cfg.Accepted) (hc : c < cfg.totalBuckets) :
    cfg.shardId c < cfg.totalShards := by
  have hlt : c.toNat < cfg.totalBuckets.toNat := hc
  rw [UInt64.lt_iff_toNat_lt, ResetState.toNat_totalShards haccepted, Config.shardId, UInt64.toNat_div]
  exact Nat.lt_succ_of_le (Nat.div_le_div_right (by omega))

theorem Marks.reset_eq (haccepted : cfg.Accepted) (h : Marks cfg s) : reset cfg s = {} := by
  have hnone : ∀ sid c, (if cfg.handleOverflow && sid < cfg.totalShards then none
      else s.combinedEntries sid c) = none := by
    intro sid c
    split_ifs with hcleared
    · rfl
    · by_contra hsome
      obtain ⟨hsid, hmark⟩ := (h.block_iff sid c).mp (Option.isSome_iff_ne_none.mpr hsome)
      refine hcleared ?_
      rw [h.sound.overflow c hmark, hsid, Bool.true_and, decide_eq_true_eq]
      exact shardId_lt_totalShards haccepted (h.inTable c hmark)
  simp only [reset, hnone]

theorem Marks.recover_eq (h : Marks cfg s)
    (hplain : ∀ bid < cfg.totalBuckets, (s.ht bid).isCombinedEntry = false) : recover s = s := by
  have hnone : s.combinedEntries = fun _ _ => none := by
    funext sid c
    by_contra hsome
    obtain ⟨-, hmark⟩ := (h.block_iff sid c).mp (Option.isSome_iff_ne_none.mpr hsome)
    rw [hplain c (h.inTable c hmark)] at hmark
    exact Bool.noConfusion hmark
  rw [recover, ← hnone]

theorem Marks.step (haccepted : cfg.Accepted) (h : Marks cfg s) {e : Event}
    (hkeeps : KeepsBlocks cfg s e) (hstep : lifeStep cfg s e = some s') : Marks cfg s' := by
  cases e with
  | call call =>
      have hsound := blocksSound_step haccepted h.sound hstep
      simp only [lifeStep, FixedSizeIndex.step, Option.ite_none_right_eq_some, Option.some.injEq]
        at hstep
      obtain ⟨-, rfl⟩ := hstep
      exact h.perform haccepted hsound (performed cfg s call.retrieveKey call.op)
  | reset =>
      simp only [lifeStep, Option.ite_none_right_eq_some, Option.some.injEq] at hstep
      obtain ⟨-, rfl⟩ := hstep
      rw [h.reset_eq haccepted]
      exact marks_empty cfg
  | recover =>
      obtain rfl : recover s = s' := Option.some.inj hstep
      rw [h.recover_eq hkeeps]
      exact h

theorem Marks.not_missesBlock (haccepted : cfg.Accepted) (h : Marks cfg s) (key : UInt64)
    (offset : Option (Fin 4)) : ¬ (lockedBucket cfg s key offset).MissesBlock s := by
  rintro ⟨i, bid, hslot, hmark, hnone⟩
  cases offset with
  | none => exact absurd hslot (by simp [lockedBucket])
  | some j =>
      obtain ⟨-, rfl⟩ : j = i ∧ cfg.calcSlotBucketId (cfg.bucketId key) j = bid := by
        simpa [lockedBucket] using hslot
      have hsid := haccepted.shardId_calcSlotBucketId (haccepted.bucketId_lt key) j
      have hblock := (h.block_iff _ _).mpr ⟨rfl, hmark⟩
      rw [lockedBucket_sid, ← hsid] at hnone
      rw [hnone] at hblock
      exact Bool.noConfusion hblock

/-- In every run in which no mark is taken over by a `recover`, the marks in the table are those of
the blocks of their shards, and no block that is used is missing. -/
theorem marks_of_exec (hfits : cfg.Fits) {events : List Event}
    (hrun : exec (lifeStep cfg) {} events = some s)
    (hkeeps : Along (lifeStep cfg) (KeepsBlocks cfg) {} events) :
    (∀ bid < cfg.totalBuckets, (s.ht bid).isCombinedEntry = true ↔
      (s.combinedEntries (cfg.shardId bid) bid).isSome = true) ∧
    (∀ key, ¬ (lockExisting cfg s key).MissesBlock s) ∧
    ∀ retrieveKey key, ¬ (lockForInsert cfg s retrieveKey key).2.MissesBlock
      (lockForInsert cfg s retrieveKey key).1 := by
  have haccepted := hfits.accepted
  have hmarks : Marks cfg s := exec_invariant_along
    (fun s e t hinv hkeeps hstep => hinv.step haccepted hkeeps hstep) hrun hkeeps (marks_empty cfg)
  refine ⟨fun bid _ => ?_, fun key => hmarks.not_missesBlock haccepted key _, fun retrieveKey key =>
    (hmarks.lockForInsert haccepted rfl).not_missesBlock haccepted key _⟩
  rw [hmarks.block_iff]
  exact ⟨fun h => ⟨rfl, h⟩, fun h => h.2⟩

/-- The fifth key makes a block. -/
def insertFive : List Event :=
  [.call (insertNth 0), .call (insertNth 1), .call (insertNth 2), .call (insertNth 3),
    .call (insertNth 4)]

/-- An index is recovered before there is a block, and one is made later. -/
theorem marks_of_exec_recoveredEarly :
    ∃ s, exec (lifeStep (createIndex largerMutex true)) {} (.recover :: insertFive) = some s ∧
      (s.ht 410).isCombinedEntry = true ∧
      (s.combinedEntries ((createIndex largerMutex true).shardId 410) 410).isSome = true := by
  obtain ⟨s, hrun, hmark⟩ :
      ∃ s, exec (lifeStep (createIndex largerMutex true)) {} (.recover :: insertFive) = some s ∧
        (s.ht 410).isCombinedEntry = true := by decide +kernel
  have hkeeps : Along (lifeStep (createIndex largerMutex true))
      (KeepsBlocks (createIndex largerMutex true)) {} (.recover :: insertFive) := by
    refine ⟨fun _ _ => rfl, fun t _ => Along.of_forall ?_⟩
    simp only [insertFive, List.forall_mem_cons, KeepsBlocks, implies_true, List.not_mem_nil,
      false_implies, and_self]
  have hfits : (createIndex largerMutex true).Fits :=
    ⟨accepted_of_validate true rfl rfl, by decide, ⟨8, by decide⟩⟩
  have hmarks := marks_of_exec hfits hrun hkeeps
  exact ⟨s, hrun, hmark, (hmarks.1 410 (by decide)).mp hmark⟩

/-- The same keys, and a shutdown after the block was made. The mark of bucket 410 is found in the
table, and the block it stands for is missing when another key of the bucket is inserted. -/
theorem mark_without_block :
    ∃ s, exec (lifeStep (createIndex largerMutex true)) {} (insertFive ++ [.recover]) = some s ∧
      (s.ht 410).isCombinedEntry = true ∧
      s.combinedEntries ((createIndex largerMutex true).shardId 410) 410 = none ∧
      (lockForInsert (createIndex largerMutex true) s (fun _ => none) 0x50000000000).2.MissesBlock
        (lockForInsert (createIndex largerMutex true) s (fun _ => none) 0x50000000000).1 := by
  let cfg := createIndex largerMutex true
  obtain ⟨s, hrun, hmark, hnone, hlock⟩ :
      ∃ s, exec (lifeStep cfg) {} (insertFive ++ [.recover]) = some s ∧
        (s.ht 410).isCombinedEntry = true ∧ s.combinedEntries (cfg.shardId 410) 410 = none ∧
        let p := lockForInsert cfg s (fun _ => none) 0x50000000000
        p.2.slot = some (0, 410) ∧ (p.1.ht 410).isCombinedEntry = true ∧
          p.1.combinedEntries p.2.sid 410 = none := by decide +kernel
  exact ⟨s, hrun, hmark, hnone, 0, 410, hlock⟩

end CacheLib.Navy.FixedSizeIndex
