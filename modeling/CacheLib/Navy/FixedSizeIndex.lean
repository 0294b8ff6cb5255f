/-
`FixedSizeIndex` (`cachelib/navy/block_cache/FixedSizeIndex.h` and `.cpp`): a hash table
of a fixed number of buckets that maps the hash of a key to a record.

A key has a home bucket and eight partial bits, both taken from its hash; that is all
the table knows of it. Its entry is in one of the four slots of the home bucket, and a
bucket that is in use says at which of the four offsets its entry is. An insert that
finds all slots taken moves one of the entries to another slot of *its* home. If that
fails, the entry in the home bucket is replaced, or, with overflow handling, the home
bucket becomes a combined entry: a block of entries under their full keys.

The two conversions between a size hint and its exponent are done in floating point by
the source; in exact decimal arithmetic they give the same values on all their inputs.
-/
import CacheLib.Navy.IndexSlots

set_option autoImplicit false

namespace CacheLib.Navy

open Function

/-! ## Records -/

instance neZero_four : NeZero 4 := ⟨Nat.succ_ne_zero 3⟩

instance neZero_sixtyFour : NeZero 64 := ⟨Nat.succ_ne_zero 63⟩

structure PackedItemRecord where
  address : UInt32 := 0
  curHits : Fin 4 := 0
  sizeExp : Fin 64 := 0
  deriving DecidableEq, Repr

/-- `Index::ItemRecord`; its third field is 0 in this index. -/
structure ItemRecord where
  address : UInt32
  sizeHint : UInt16
  currentHits : Fin 4
  deriving DecidableEq, Repr

namespace PackedItemRecord

def kCombinedEntrySizeExp : Fin 64 := 0x3f

def kActiveCebAddress : UInt32 := 1

/-- The loop of `sizeHintToExp`, from `1.196 ^ xp` on; 63 rounds are enough for it. -/
def sizeHintToExpLoop (sizeHint : ℕ) : ℕ → ℕ → ℕ
  | 0, xp => xp
  | fuel + 1, xp =>
      if 1196 ^ xp < sizeHint * 1000 ^ xp then sizeHintToExpLoop sizeHint fuel (xp + 1) else xp

def sizeHintToExp (sizeHint : UInt16) : Fin 64 :=
  Fin.ofNat 64 (sizeHintToExpLoop sizeHint.toNat 63 0)

def sizeExpToHint (sizeExp : Fin 64) : UInt16 :=
  UInt16.ofNat (1196 ^ sizeExp.val / 1000 ^ sizeExp.val)

def truncateCurHits (curHits : ℕ) : Fin 4 := Fin.ofNat 4 (min curHits 3)

/-- The constructor with three arguments. -/
def make (address : UInt32) (sizeHint : UInt16) (currentHits : ℕ) : PackedItemRecord where
  address := address
  curHits := truncateCurHits currentHits
  sizeExp := sizeHintToExp sizeHint

variable (r : PackedItemRecord)

def isValid : Bool := r.address ≠ 0

def getSizeHint : UInt16 := sizeExpToHint r.sizeExp

def isCombinedEntry : Bool := r.sizeExp = kCombinedEntrySizeExp

def setCombinedEntry (_ : PackedItemRecord) : PackedItemRecord where
  address := kActiveCebAddress
  curHits := 0
  sizeExp := kCombinedEntrySizeExp

def bumpCurHits (hits : ℕ) : PackedItemRecord :=
  { r with curHits := truncateCurHits (r.curHits.val + hits) }

/-- The record as the operations return it. -/
def toItemRecord : ItemRecord := ⟨r.address, r.getSizeHint, r.curHits⟩

/-- The exponent reserved for combined entries is not that of a size: `1.196 ^ 62` is
above every 16-bit number. -/
theorem sizeHintToExpLoop_le {sizeHint : ℕ} (hsize : sizeHint < 2 ^ 16) (fuel : ℕ) {xp : ℕ}
    (hxp : xp ≤ 62) : sizeHintToExpLoop sizeHint fuel xp ≤ 62 := by
  induction fuel generalizing xp with
  | zero => exact hxp
  | succ fuel ih =>
      unfold sizeHintToExpLoop
      split
      · rename_i hless
        refine ih ?_
        by_contra hlast
        have hxp' : xp = 62 := by omega
        subst hxp'
        have hmul : sizeHint * 1000 ^ 62 ≤ (2 ^ 16 - 1) * 1000 ^ 62 :=
          Nat.mul_le_mul_right _ (by omega)
        exact absurd (hless.trans_le hmul) (by decide)
      · exact hxp

@[simp] theorem make_isCombinedEntry (address : UInt32) (sizeHint : UInt16) (hits : ℕ) :
    (make address sizeHint hits).isCombinedEntry = false := by
  have hle : sizeHintToExpLoop sizeHint.toNat 63 0 ≤ 62 :=
    sizeHintToExpLoop_le sizeHint.toNat_lt 63 (Nat.zero_le _)
  refine decide_eq_false ?_
  intro heq
  have hval : (sizeHintToExp sizeHint).val = kCombinedEntrySizeExp.val := congrArg Fin.val heq
  simp only [sizeHintToExp, kCombinedEntrySizeExp, Fin.ofNat, Nat.mod_eq_of_lt (show
    sizeHintToExpLoop sizeHint.toNat 63 0 < 64 by omega)] at hval
  change _ = 63 at hval
  omega

end PackedItemRecord

/-! ## Combined entry blocks -/

/-- An entry of a `CombinedEntryBlock`: its `EntryPosInfo` and the record at its
position. -/
structure BlockEntry where
  bid : UInt64
  key : UInt64
  removed : Bool := false
  record : PackedItemRecord
  deriving DecidableEq, Repr

/-- `CombinedEntryBlock`: the entries in the order of their indices. -/
structure CombinedEntryBlock where
  entries : List BlockEntry := []
  deriving DecidableEq, Repr

/-- `CombinedEntryStatus`, as far as a block in memory returns it -/
inductive CombinedEntryStatus where
  | kOk
  | kUpdated
  | kFull
  | kNotFound
  deriving DecidableEq, Repr

namespace CombinedEntryBlock

def kDefaultSize : ℕ := 4096

/-- `sizeof(Header)`, `sizeof(EntryPosInfo)` and `sizeof(EntryRecord)` -/
def headerSize : ℕ := 12
def entryPosInfoSize : ℕ := 24
def entryRecordSize : ℕ := 5

variable (b : CombinedEntryBlock)

/-- `storedKeys_.find`, and the entry it leads to -/
def find (key : UInt64) : Option BlockEntry :=
  b.entries.find? fun e => e.key = key

/-- Whether another entry would meet the position infos. -/
def isFull : Bool :=
  let curPos : ℤ := kDefaultSize - entryRecordSize * b.entries.length
  curPos - entryRecordSize < headerSize + entryPosInfoSize * (b.entries.length + 1)

def addIndexEntry (bid key : UInt64) (record : PackedItemRecord) :
    CombinedEntryStatus × CombinedEntryBlock :=
  match b.find key with
  | some found =>
      (if found.removed then .kOk else .kUpdated,
        ⟨b.entries.map fun e => if e.key = key then { e with bid, removed := false, record } else e⟩)
  | none =>
      if b.isFull then (.kFull, b)
      else (.kOk, ⟨b.entries ++ [⟨bid, key, false, record⟩]⟩)

def getIndexEntry (key : UInt64) : Option PackedItemRecord :=
  match b.find key with
  | some found => if found.removed then none else some found.record
  | none => none

def removeIndexEntry (key : UInt64) :
    CombinedEntryStatus × CombinedEntryBlock :=
  match b.find key with
  | some found =>
      if found.removed then (.kNotFound, b)
      else (.kOk, ⟨b.entries.map fun e => if e.key = key then { e with removed := true } else e⟩)
  | none => (.kNotFound, b)

def peekIndexEntry (key : UInt64) : Bool :=
  match b.find key with
  | some found => !found.removed
  | none => false

section

variable {b : CombinedEntryBlock} {bid key key' : UInt64} {record : PackedItemRecord}

theorem peekIndexEntry_eq (b : CombinedEntryBlock) (key : UInt64) :
    b.peekIndexEntry key = (b.getIndexEntry key).isSome := by
  unfold peekIndexEntry getIndexEntry
  split
  · split <;> simp_all
  · rfl

theorem key_of_find {e : BlockEntry} (h : b.find key = some e) : e.key = key := by
  simpa using List.find?_some h

/-- Changing the entries of a key does not change which entries are found. -/
theorem find_map {f : BlockEntry → BlockEntry} (hf : ∀ e, (f e).key = e.key) :
    find ⟨b.entries.map fun e => if e.key = key then f e else e⟩ key'
      = (b.find key').map fun e => if e.key = key then f e else e := by
  have hkey : ∀ e : BlockEntry, (if e.key = key then f e else e).key = e.key := by
    intro e
    split
    · exact hf e
    · rfl
  rw [find, find, List.find?_map]
  simp only [comp_def, hkey]

theorem find_map_of_ne {f : BlockEntry → BlockEntry} (hf : ∀ e, (f e).key = e.key)
    (hne : key' ≠ key) :
    find ⟨b.entries.map fun e => if e.key = key then f e else e⟩ key' = b.find key' := by
  rw [find_map hf]
  rcases hfound : b.find key' with _ | e
  · rfl
  · rw [Option.map_some, if_neg (by rw [key_of_find hfound]; exact hne)]

theorem getIndexEntry_addIndexEntry_of_ne (hne : key' ≠ key) :
    (b.addIndexEntry bid key record).2.getIndexEntry key' = b.getIndexEntry key' := by
  have hfind : (b.addIndexEntry bid key record).2.find key' = b.find key' := by
    unfold addIndexEntry
    split
    · exact find_map_of_ne (fun _ => rfl) hne
    · split
      · rfl
      · rw [find, find, List.find?_append]
        simp [Ne.symm hne]
  rw [getIndexEntry, getIndexEntry, hfind]

theorem getIndexEntry_removeIndexEntry :
    (b.removeIndexEntry key).2.getIndexEntry key' =
      if key' = key then none else b.getIndexEntry key' := by
  unfold removeIndexEntry
  rcases hfound : b.find key with _ | e
  · by_cases heq : key' = key
    · simp [getIndexEntry, heq, hfound]
    · simp [heq]
  · by_cases hremoved : e.removed = true
    · by_cases heq : key' = key
      · simp [getIndexEntry, heq, hfound, hremoved]
      · simp [hremoved, heq]
    · simp only [hremoved, Bool.false_eq_true, if_false]
      by_cases heq : key' = key
      · subst heq
        simp only [getIndexEntry, find_map (f := fun e => { e with removed := true })
          (fun _ => rfl), hfound, Option.map_some, key_of_find hfound, if_true]
      · rw [if_neg heq, getIndexEntry, getIndexEntry,
          find_map_of_ne (f := fun e => { e with removed := true }) (fun _ => rfl) heq]

end

end CombinedEntryBlock

namespace FixedSizeIndex

/-! ## The table -/

/-- `ht_`, `bucketDistInfo_` (with four buckets to a byte of `fillMap_`),
`validBucketsPerShard_` and `combinedEntries_`. -/
structure State where
  ht : UInt64 → PackedItemRecord := fun _ => {}
  fillMap : UInt64 → UInt8 := fun _ => 0
  partialBits : UInt64 → UInt8 := fun _ => 0
  validBucketsPerShard : UInt64 → UInt64 := fun _ => 0
  combinedEntries : UInt64 → UInt64 → Option CombinedEntryBlock := fun _ _ => none

/-- Which two bits of a byte of `fillMap_` are those of a bucket. -/
def fillShift (bid : UInt64) : UInt8 := ((bid &&& 0x3) <<< 1).toUInt8

def setBucketFillInfo (fillMap : UInt64 → UInt8) (bid : UInt64) (slotOffset : Fin 4) :
    UInt64 → UInt8 :=
  update fillMap (bid / 4)
    (fillMap (bid / 4) &&& ~~~(0x3 <<< fillShift bid)
      ||| UInt8.ofNat slotOffset.val <<< fillShift bid)

def getBucketFillInfo (fillMap : UInt64 → UInt8) (bid : UInt64) : Fin 4 :=
  Fin.ofNat 4 (fillMap (bid / 4) >>> fillShift bid &&& 0x3).toNat

/-- The four pairs of bits of a byte. -/
def pairShift (k : Fin 4) : UInt8 := UInt8.ofNat (2 * k.val)

theorem fillShift_eq (bid : UInt64) : fillShift bid = pairShift (Fin.ofNat 4 bid.toNat) := by
  have hand : (bid &&& 0x3).toNat = bid.toNat % 4 := by
    rw [UInt64.toNat_and]
    exact Nat.and_two_pow_sub_one_eq_mod bid.toNat 2
  have hlt := Nat.mod_lt bid.toNat (show 0 < 4 by decide)
  rw [fillShift, pairShift, ← UInt8.toNat_inj, UInt64.toNat_toUInt8, UInt64.toNat_shiftLeft, hand,
    UInt8.toNat_ofNat', Nat.shiftLeft_eq]
  simp only [Fin.ofNat]
  change bid.toNat % 4 * 2 ^ 1 % 2 ^ 64 % 2 ^ 8 = _
  omega

/-- Clearing a pair leaves the others. -/
theorem pair_cleared : ∀ (x : BitVec 8) (k l : Fin 4),
    (UInt8.ofBitVec x &&& ~~~(0x3 <<< pairShift k)) >>> pairShift l &&& 0x3
      = if k = l then 0 else UInt8.ofBitVec x >>> pairShift l &&& 0x3 := by
  decide +kernel

theorem pair_set : ∀ (o k l : Fin 4),
    (UInt8.ofNat o.val <<< pairShift k) >>> pairShift l &&& 0x3
      = if k = l then UInt8.ofNat o.val else 0 := by
  decide +kernel

theorem pair_replaced (x : UInt8) (o k l : Fin 4) :
    (x &&& ~~~(0x3 <<< pairShift k) ||| UInt8.ofNat o.val <<< pairShift k) >>> pairShift l &&& 0x3
      = if k = l then UInt8.ofNat o.val else x >>> pairShift l &&& 0x3 := by
  have hclear := pair_cleared x.toBitVec k l
  rw [UInt8.ofBitVec_toBitVec] at hclear
  have hor : ∀ a b : UInt8, (a ||| b) &&& 0x3 = (a &&& 0x3) ||| (b &&& 0x3) := by
    intro a b
    rw [← UInt8.toBitVec_inj]
    ext i
    simp [Bool.and_or_distrib_right]
  rw [UInt8.shiftRight_or, hor, hclear, pair_set]
  by_cases h : k = l
  · simp [h]
  · simp [h]

/-- The two bits of a bucket are read back, and those of the other three are left. -/
theorem getBucketFillInfo_set (fillMap : UInt64 → UInt8) (bid b : UInt64) (slotOffset : Fin 4) :
    getBucketFillInfo (setBucketFillInfo fillMap bid slotOffset) b
      = if b = bid then slotOffset else getBucketFillInfo fillMap b := by
  unfold getBucketFillInfo setBucketFillInfo
  by_cases hbyte : b / 4 = bid / 4
  · rw [hbyte, update_self, fillShift_eq, fillShift_eq, pair_replaced]
    by_cases hb : b = bid
    · rw [if_pos (by rw [hb]), if_pos hb]
      have hfour : ∀ o : Fin 4, Fin.ofNat 4 (UInt8.ofNat o.val).toNat = o := by decide
      exact hfour slotOffset
    · have hpair : (Fin.ofNat 4 bid.toNat) ≠ Fin.ofNat 4 b.toNat := by
        intro heq
        have hmod : bid.toNat % 4 = b.toNat % 4 := congrArg Fin.val heq
        have hdiv : b.toNat / 4 = bid.toNat / 4 := by
          have h4 : (4 : UInt64).toNat = 4 := rfl
          rw [← h4, ← UInt64.toNat_div, ← UInt64.toNat_div, hbyte]
        exact hb (UInt64.toNat_inj.mp (by omega))
      rw [if_neg hpair, if_neg hb]
  · have hb : b ≠ bid := fun heq => hbyte (by rw [heq])
    rw [update_of_ne hbyte, if_neg hb]

namespace State

def getBucketFillOffset (s : State) (bid : UInt64) : Fin 4 := getBucketFillInfo s.fillMap bid

def getPartialKey (s : State) (bid : UInt64) : UInt8 := s.partialBits bid

def updateBucketFillInfo (s : State) (bid : UInt64) (slotOffset : Fin 4) (partialKeys : UInt8) :
    State :=
  { s with
    fillMap := setBucketFillInfo s.fillMap bid slotOffset
    partialBits := update s.partialBits bid partialKeys }

/-- `ht_[bid] = record` -/
def setRecord (s : State) (bid : UInt64) (record : PackedItemRecord) : State :=
  { s with ht := update s.ht bid record }

/-- `combinedEntries_[sid][bid] = block` -/
def setBlock (s : State) (sid bid : UInt64) (block : CombinedEntryBlock) : State :=
  { s with
    combinedEntries := update s.combinedEntries sid
      (update (s.combinedEntries sid) bid (some block)) }

end State

/-! ## Keys -/

def kBucketRandomizeOffset : List UInt64 :=
  [1229, 1543, 1867, 2179, 2521, 2833, 3203, 3539, 3877, 4229, 4567,
   4919, 5231, 5557, 5861, 6217, 1097, 1423, 1693, 2003, 3121, 3463,
   4099, 4451, 4793, 5119, 5483, 5827, 6197, 6547, 6899, 7283, 7649,
   5717, 6011, 7127, 7459, 7867, 8011, 8167, 8293, 8447, 8623, 8737,
   8863, 9013, 9173, 9319, 9437, 7103, 6823, 6959, 7079, 7993, 8147,
   8431, 8719, 9007, 9293, 9551, 9851, 2203, 4967, 5653]

def Config.bucketId (cfg : Config) (hash : UInt64) : UInt64 :=
  let cid := (hash >>> 32) % cfg.numChunks.toUInt64
  let bid := hash &&& (cfg.bucketsPerChunk - 1)
  let randomizeOffset1 := (hash >>> 48) &&& 0x3f
  let randomizeOffset2 := (hash >>> 54) &&& 0x3f
  let addOffset2 := (hash >>> 60) &&& 0x3
  ((cid <<< cfg.numBucketsPerChunkPower.toUInt64) + bid
    + kBucketRandomizeOffset.getD randomizeOffset1.toNat 0
    + kBucketRandomizeOffset.getD randomizeOffset2.toNat 0 <<< addOffset2) % cfg.totalBuckets

def partialKeyBits (key : UInt64) : UInt8 := ((key >>> 40) &&& 0xff).toUInt8

/-! ## Finding and making room -/

/-- The indices of `kNextSlotOffset`, in the order of the loops. -/
def slotOffsets : List (Fin 4) := [0, 1, 2, 3]

section

variable (cfg : Config) (s : State)

def checkCombinedIndexEntry (bid key : UInt64) : Option (Fin 4) :=
  slotOffsets.find? fun i =>
    let slotBid := cfg.calcSlotBucketId bid i
    (s.ht slotBid).isCombinedEntry &&
      (s.combinedEntries (cfg.shardId (cfg.calcSlotBucketId bid 0)) slotBid).any
        fun block => block.peekIndexEntry key

/-- The entry in a slot is one of the key's bucket and partial bits. -/
def matchesSlot (bid key : UInt64) (i : Fin 4) : Bool :=
  let slotBid := cfg.calcSlotBucketId bid i
  (s.ht slotBid).isValid && !(s.ht slotBid).isCombinedEntry &&
    s.getBucketFillOffset slotBid = i && partialKeyBits key = s.getPartialKey slotBid

/-- `checkBucketSlotOffset`; `none` is `kInvalidBucketSlotOffset`. -/
def checkBucketSlotOffset (bid key : UInt64) : Option (Fin 4) :=
  match if cfg.handleOverflow then checkCombinedIndexEntry cfg s bid key else none with
  | some i => some i
  | none => slotOffsets.find? (matchesSlot cfg s bid key)

/-- An entry goes from one bucket to another slot of its home. -/
def State.moveEntry (s : State) (curBid checkBid : UInt64) (sub : Fin 4) : State :=
  ((s.setRecord checkBid (s.ht curBid)).setRecord curBid {}).updateBucketFillInfo checkBid sub
    (s.getPartialKey curBid)

/-- The loop of `findOrMakeEmptySlotByMoving`, over the offsets that are left. -/
def findOrMakeEmptySlot (bid : UInt64) : List (Fin 4) → Option (State × Fin 4)
  | [] => none
  | i :: rest =>
      let slotBid := cfg.calcSlotBucketId bid i
      if !(s.ht slotBid).isValid then some (s, i)
      else if (s.ht slotBid).isCombinedEntry then findOrMakeEmptySlot bid rest
      else
        let curOffset := s.getBucketFillOffset slotBid
        if curOffset ≠ i then
          let orgBid := cfg.originalBucketId slotBid curOffset
          match slotOffsets.find? fun sub =>
              sub ≠ curOffset && !(s.ht (cfg.calcSlotBucketId orgBid sub)).isValid with
          | some sub => some (s.moveEntry slotBid (cfg.calcSlotBucketId orgBid sub) sub, i)
          | none => findOrMakeEmptySlot bid rest
        else findOrMakeEmptySlot bid rest

def findOrMakeEmptySlotByMoving (bid : UInt64) : Option (State × Fin 4) :=
  findOrMakeEmptySlot cfg s bid slotOffsets

/-- `createCombinedIndexBlock`; `retrieveKey` is the callback that reads a key back. -/
def createCombinedIndexBlock (retrieveKey : UInt32 → Option UInt64) (curBid : UInt64)
    (record : PackedItemRecord) : Option CombinedEntryBlock :=
  match retrieveKey record.address with
  | none => none
  | some key =>
      match ({} : CombinedEntryBlock).addIndexEntry curBid key record with
      | (.kOk, block) => some block
      | _ => none

def decideBucketSlotOffset (retrieveKey : UInt32 → Option UInt64) (bid key : UInt64) :
    State × Fin 4 :=
  match checkBucketSlotOffset cfg s bid key with
  | some i => (s, i)
  | none =>
      match findOrMakeEmptySlotByMoving cfg s bid with
      | some (s, i) => (s, i)
      | none =>
          if cfg.handleOverflow then
            match slotOffsets.find? fun i => (s.ht (cfg.calcSlotBucketId bid i)).isCombinedEntry with
            | some i => (s, i)
            | none =>
                let curBid := cfg.calcSlotBucketId bid 0
                match createCombinedIndexBlock retrieveKey curBid (s.ht curBid) with
                | some block =>
                    ((s.setBlock (cfg.shardId bid) curBid block).setRecord curBid
                      (s.ht curBid).setCombinedEntry, 0)
                | none => (s, 0)
          else (s, 0)

end

/-! ## A locked bucket -/

/-- What `ExclusiveLockedBucket` and `SharedLockedBucket` hold: the shard, and the slot with
its bucket if there is one for the key. -/
structure LockedBucket where
  key : UInt64
  sid : UInt64
  slot : Option (Fin 4 × UInt64)
  record : PackedItemRecord

/-- The record of the key in its slot: the bucket's own, or one in the bucket's block. -/
def recordAt (s : State) (sid bid key : UInt64) : PackedItemRecord :=
  if !(s.ht bid).isCombinedEntry then s.ht bid
  else
    match (s.combinedEntries sid bid).bind fun block => block.getIndexEntry key with
    | some record => record.bumpCurHits (s.ht bid).curHits.val
    | none => {}

section

variable (cfg : Config) (s : State)

/-- The bucket for an offset. -/
def lockedBucket (key : UInt64) (offset : Option (Fin 4)) : LockedBucket :=
  let bid := cfg.bucketId key
  match offset with
  | some i =>
      let slotBid := cfg.calcSlotBucketId bid i
      ⟨key, cfg.shardId bid, some (i, slotBid), recordAt s (cfg.shardId bid) slotBid key⟩
  | none => ⟨key, cfg.shardId bid, none, {}⟩

/-- A bucket that is only looked for. -/
def lockExisting (key : UInt64) : LockedBucket :=
  lockedBucket cfg s key (checkBucketSlotOffset cfg s (cfg.bucketId key) key)

/-- A bucket for an insert, for which room is made. -/
def lockForInsert (retrieveKey : UInt32 → Option UInt64) (key : UInt64) : State × LockedBucket :=
  let p := decideBucketSlotOffset cfg s retrieveKey (cfg.bucketId key) key
  (p.1, lockedBucket cfg p.1 key (some p.2))

end

namespace LockedBucket

/-- `insertCombinedIndexEntry` in the block of the bucket; whether there was room. -/
def insertCombinedIndexEntry (lb : LockedBucket) (s : State) (bid : UInt64)
    (record : PackedItemRecord) : State × Bool :=
  match s.combinedEntries lb.sid bid with
  | none => (s, false)
  | some block =>
      let p := block.addIndexEntry bid lb.key record
      (s.setBlock lb.sid bid p.2, p.1 = .kUpdated || p.1 = .kOk)

/-- `updateRecord` and `updateDistInfo`, which always follow one another -/
def updateRecord (lb : LockedBucket) (s : State) (record : PackedItemRecord) : State :=
  match lb.slot with
  | none => s
  | some (i, bid) =>
      if !(s.ht bid).isCombinedEntry then
        (s.setRecord bid record).updateBucketFillInfo bid i (partialKeyBits lb.key)
      else (lb.insertCombinedIndexEntry s bid record).1

def updateNewAddress (lb : LockedBucket) (s : State) (newAddress : UInt32) : State × Bool :=
  match lb.slot with
  | none => (s, false)
  | some (_, bid) =>
      if !(s.ht bid).isCombinedEntry then
        (s.setRecord bid { s.ht bid with address := newAddress, curHits := 0 }, true)
      else
        lb.insertCombinedIndexEntry s bid { lb.record with address := newAddress, curHits := 0 }

def removeRecord (lb : LockedBucket) (s : State) : State :=
  match lb.slot with
  | none => s
  | some (_, bid) =>
      if !(s.ht bid).isCombinedEntry then s.setRecord bid {}
      else
        match s.combinedEntries lb.sid bid with
        | none => s
        | some block => s.setBlock lb.sid bid (block.removeIndexEntry lb.key).2

/-- `validBucketCntRef`, changed -/
def countValid (lb : LockedBucket) (s : State) (change : UInt64 → UInt64) : State :=
  { s with
    validBucketsPerShard :=
      update s.validBucketsPerShard lb.sid (change (s.validBucketsPerShard lb.sid)) }

/-- `bumpCurRecordHits`, on the bucket whatever it holds -/
def bumpCurRecordHits (lb : LockedBucket) (s : State) : State :=
  match lb.slot with
  | none => s
  | some (_, bid) => s.setRecord bid ((s.ht bid).bumpCurHits 1)

end LockedBucket

/-! ## Operations -/

section

variable (cfg : Config) (s : State)

def lookup (key : UInt64) : State × Option ItemRecord :=
  let lb := lockExisting cfg s key
  if lb.record.isValid then
    let s := lb.bumpCurRecordHits s
    let hits := match lb.slot with
      | some (_, bid) => (s.ht bid).curHits
      | none => 0
    (s, some ⟨lb.record.address, lb.record.getSizeHint, hits⟩)
  else (s, none)

def peek (key : UInt64) : Option ItemRecord :=
  let lb := lockExisting cfg s key
  if lb.record.isValid then some lb.record.toItemRecord else none

variable (retrieveKey : UInt32 → Option UInt64)

def insert (key : UInt64) (address : UInt32) (sizeHint : UInt16) : State × Option ItemRecord :=
  let (s, lb) := lockForInsert cfg s retrieveKey key
  let record := PackedItemRecord.make address sizeHint 0
  if lb.record.isValid then (lb.updateRecord s record, some lb.record.toItemRecord)
  else (lb.updateRecord (lb.countValid s (· + 1)) record, none)

def insertIfNotExists (key : UInt64) (address : UInt32) (sizeHint : UInt16) :
    State × Option ItemRecord :=
  let (s, lb) := lockForInsert cfg s retrieveKey key
  if lb.record.isValid then (s, some lb.record.toItemRecord)
  else
    (lb.updateRecord (lb.countValid s (· + 1)) (PackedItemRecord.make address sizeHint 0), none)

def replaceIfMatch (key : UInt64) (newAddress oldAddress : UInt32) : State × Bool :=
  let lb := lockExisting cfg s key
  if lb.record.isValid && lb.record.address = oldAddress then lb.updateNewAddress s newAddress
  else (s, false)

def remove (key : UInt64) : State × Option ItemRecord :=
  let lb := lockExisting cfg s key
  if lb.record.isValid then
    (lb.removeRecord (lb.countValid s (· - 1)), some lb.record.toItemRecord)
  else (lb.removeRecord s, none)

def removeIfMatch (key : UInt64) (address : UInt32) : State × Bool :=
  let lb := lockExisting cfg s key
  if lb.record.isValid && lb.record.address = address then
    (lb.countValid (lb.removeRecord s) (· - 1), true)
  else (s, false)

end

/-! ## Runs -/

/-- The operations. -/
inductive Op where
  | lookup (key : UInt64)
  | insert (key : UInt64) (address : UInt32) (sizeHint : UInt16)
  | insertIfNotExists (key : UInt64) (address : UInt32) (sizeHint : UInt16)
  | replaceIfMatch (key : UInt64) (newAddress oldAddress : UInt32)
  | remove (key : UInt64)
  | removeIfMatch (key : UInt64) (address : UInt32)
  deriving DecidableEq, Repr

/-- What an operation returns. -/
inductive Reply where
  | record (found : Option ItemRecord)
  | done (matched : Bool)
  deriving DecidableEq, Repr

/-- An operation on an index. -/
def perform (cfg : Config) (s : State) (retrieveKey : UInt32 → Option UInt64) : Op → State × Reply
  | .lookup key => (lookup cfg s key).map id .record
  | .insert key address sizeHint => (insert cfg s retrieveKey key address sizeHint).map id .record
  | .insertIfNotExists key address sizeHint =>
      (insertIfNotExists cfg s retrieveKey key address sizeHint).map id .record
  | .replaceIfMatch key newAddress oldAddress =>
      (replaceIfMatch cfg s key newAddress oldAddress).map id .done
  | .remove key => (remove cfg s key).map id .record
  | .removeIfMatch key address => (removeIfMatch cfg s key address).map id .done

/-- The key of an operation. -/
def Op.key : Op → UInt64
  | .lookup key | .insert key _ _ | .insertIfNotExists key _ _ | .replaceIfMatch key _ _
  | .remove key | .removeIfMatch key _ => key

/-- An operation that was called: what the callback answered during the call, and what
was returned. -/
structure Call where
  op : Op
  retrieveKey : UInt32 → Option UInt64 := fun _ => none
  reply : Reply

/-- A call happens in the states in which it returns what it returned. -/
def step (cfg : Config) (s : State) (c : Call) : Option State :=
  let p := perform cfg s c.retrieveKey c.op
  if p.2 = c.reply then some p.1 else none

end FixedSizeIndex

end CacheLib.Navy
