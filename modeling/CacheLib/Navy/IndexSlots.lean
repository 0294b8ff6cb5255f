/-
The buckets of a `FixedSizeIndex` (`cachelib/navy/block_cache/FixedSizeIndex.h`): how
many there are, which shard a bucket belongs to, the four slots of a bucket and the
way back from a slot to its bucket.

A slot is a bucket of the same shard, at a fixed distance and wrapping around at the
end of the shard. `originalBucketId` undoes this by adding the shard size once. That is
right as long as no distance is larger than a shard. The configuration is checked
before an index is made, but not for this, nor for a last shard that is shorter than the
others: `reset` and `calcSlotBucketId` treat every shard as full. The default of 64
buckets a shard is below the largest distance, 97.
-/
import Mathlib.Data.Nat.Basic
import Mathlib.Data.Nat.ModEq
import Mathlib.Tactic.SplitIfs

set_option autoImplicit false

namespace CacheLib.Navy

/-! ## Configuration -/

structure BlockCacheIndexConfig where
  enableFixedSizeIndex : Bool := false
  numBucketsPerMutex : UInt64 := 64
  numSparseMapBuckets : UInt32 := 64 * 1024
  persistUsingShm : Bool := false
  numChunks : UInt32 := 0
  numBucketsPerChunkPower : UInt8 := 0
  deriving DecidableEq, Repr

/-- The exceptions of `validate`, one for each `throw`. -/
inductive IndexConfigError where
  | notReasonable
  | mutexLargerThanTable
  | persistenceOnFlash
  | sparseMapBucketsNotPowTwo
  | bucketsPerMutexNotPowTwo
  | mutexLargerThanSparseMap
  | persistenceOnShm
  deriving DecidableEq, Repr

/-- `folly::isPowTwo` -/
def isPowTwo64 (n : UInt64) : Bool := n ≠ 0 && n &&& (n - 1) = 0

def BlockCacheIndexConfig.validate (cfg : BlockCacheIndexConfig) : Except IndexConfigError Unit :=
  if cfg.enableFixedSizeIndex then
    if cfg.numChunks = 0 || cfg.numBucketsPerMutex = 0 || cfg.numBucketsPerChunkPower = 0 ||
        cfg.numBucketsPerChunkPower ≥ 64 then
      .error .notReasonable
    else if cfg.numChunks.toUInt64 * ((1 : UInt64) <<< cfg.numBucketsPerChunkPower.toUInt64)
        < cfg.numBucketsPerMutex then
      .error .mutexLargerThanTable
    else if !cfg.persistUsingShm then .error .persistenceOnFlash
    else .ok ()
  else
    if cfg.numSparseMapBuckets = 0 || !isPowTwo64 cfg.numSparseMapBuckets.toUInt64 then
      .error .sparseMapBucketsNotPowTwo
    else if cfg.numBucketsPerMutex = 0 || !isPowTwo64 cfg.numBucketsPerMutex then
      .error .bucketsPerMutexNotPowTwo
    else if cfg.numBucketsPerMutex > cfg.numSparseMapBuckets.toUInt64 then
      .error .mutexLargerThanSparseMap
    else if cfg.persistUsingShm then .error .persistenceOnShm
    else .ok ()

namespace FixedSizeIndex

/-- The parameters of the index; `createIndex` passes the number of buckets per mutex as
that per shard. -/
structure Config where
  numChunks : UInt32
  numBucketsPerChunkPower : UInt8
  numBucketsPerShard : UInt64
  handleOverflow : Bool
  deriving DecidableEq, Repr

/-- What `BlockCache::createIndex` makes of a configuration. -/
def createIndex (cfg : BlockCacheIndexConfig) (useCombinedEntryBlock : Bool) : Config where
  numChunks := cfg.numChunks
  numBucketsPerChunkPower := cfg.numBucketsPerChunkPower
  numBucketsPerShard := cfg.numBucketsPerMutex
  handleOverflow := useCombinedEntryBlock

namespace Config

variable (cfg : Config)

/-- `bucketsPerChunk_` -/
def bucketsPerChunk : UInt64 := 1 <<< cfg.numBucketsPerChunkPower.toUInt64

/-- `getTotalBucketCount` -/
def totalBuckets : UInt64 := cfg.numChunks.toUInt64 * cfg.bucketsPerChunk

/-- `getTotalShardCount` -/
def totalShards : UInt64 := (cfg.totalBuckets - 1) / cfg.numBucketsPerShard + 1

def shardId (bucketId : UInt64) : UInt64 := bucketId / cfg.numBucketsPerShard

end Config

def kNextSlotOffset : Fin 4 → UInt64
  | 0 => 0
  | 1 => 23
  | 2 => 61
  | 3 => 97

namespace Config

variable (cfg : Config)

def calcSlotBucketId (bid : UInt64) (offset : Fin 4) : UInt64 :=
  bid / cfg.numBucketsPerShard * cfg.numBucketsPerShard
    + (bid + kNextSlotOffset offset) % cfg.numBucketsPerShard

def originalBucketId (curBid : UInt64) (fillOffset : Fin 4) : UInt64 :=
  if curBid % cfg.numBucketsPerShard ≥ kNextSlotOffset fillOffset then
    curBid - kNextSlotOffset fillOffset
  else curBid + cfg.numBucketsPerShard - kNextSlotOffset fillOffset

end Config

/-! ### `reset` -/

/-- The counters of the two loops of `reset`. -/
structure ResetState where
  i : UInt32 := 0
  j : UInt64 := 0
  bucketId : UInt64 := 0
  deriving DecidableEq, Repr

namespace ResetState

variable (cfg : Config)

/-- The table entry that the next iteration writes. -/
def writes (s : ResetState) : Option UInt64 :=
  if s.i.toUInt64 < cfg.totalShards ∧ s.j < cfg.numBucketsPerShard then some s.bucketId else none

/-- One iteration of the inner loop, or the step of the outer one. -/
def next (s : ResetState) : ResetState :=
  if s.i.toUInt64 < cfg.totalShards then
    if s.j < cfg.numBucketsPerShard then { s with j := s.j + 1, bucketId := s.bucketId + 1 }
    else { s with i := s.i + 1, j := 0 }
  else s

/-- The counters after a number of iterations. -/
def after : ℕ → ResetState
  | 0 => {}
  | n + 1 => (after n).next cfg

end ResetState

/-! ## What an accepted configuration is -/

/-- What `validate` makes sure of. -/
structure Config.Accepted (cfg : Config) : Prop where
  numChunks_ne : cfg.numChunks ≠ 0
  numBucketsPerShard_ne : cfg.numBucketsPerShard ≠ 0
  power_ne : cfg.numBucketsPerChunkPower ≠ 0
  power_lt : cfg.numBucketsPerChunkPower < 64
  shard_le : cfg.numBucketsPerShard ≤ cfg.totalBuckets

theorem accepted_of_validate {cfg : BlockCacheIndexConfig} (useCombinedEntryBlock : Bool)
    (hfixed : cfg.enableFixedSizeIndex = true) (h : cfg.validate = .ok ()) :
    (createIndex cfg useCombinedEntryBlock).Accepted := by
  unfold BlockCacheIndexConfig.validate at h
  rw [if_pos hfixed] at h
  split at h
  · exact absurd h (by simp)
  split at h
  · exact absurd h (by simp)
  rename_i hreasonable hsmall
  simp only [Bool.or_eq_true, decide_eq_true_eq, not_or] at hreasonable
  obtain ⟨⟨⟨hchunks, hmutex⟩, hpower⟩, hlarge⟩ := hreasonable
  exact ⟨hchunks, hmutex, hpower, UInt8.not_le.mp hlarge, UInt64.not_lt.mp hsmall⟩

namespace Config

variable {cfg : Config}

theorem toNat_bucketsPerChunk (h : cfg.Accepted) :
    cfg.bucketsPerChunk.toNat = 2 ^ cfg.numBucketsPerChunkPower.toNat := by
  have hpower : cfg.numBucketsPerChunkPower.toNat < 64 := h.power_lt
  have hpow : 2 ^ cfg.numBucketsPerChunkPower.toNat < 2 ^ 64 :=
    Nat.pow_lt_pow_right (by decide) hpower
  rw [bucketsPerChunk, UInt64.toNat_shiftLeft, UInt8.toNat_toUInt64, Nat.mod_eq_of_lt hpower]
  change 1 <<< cfg.numBucketsPerChunkPower.toNat % 2 ^ 64 = _
  rw [Nat.one_shiftLeft, Nat.mod_eq_of_lt hpow]

/-- It is small, or a multiple of a large power of two. -/
theorem totalBuckets_add_le (h : cfg.Accepted) : cfg.totalBuckets.toNat + 97 ≤ 2 ^ 64 := by
  have hchunks : cfg.numChunks.toNat < 2 ^ 32 := cfg.numChunks.toNat_lt
  have htotal : cfg.totalBuckets.toNat
      = cfg.numChunks.toNat * 2 ^ cfg.numBucketsPerChunkPower.toNat % 2 ^ 64 := by
    rw [totalBuckets, UInt64.toNat_mul, toNat_bucketsPerChunk h, UInt32.toNat_toUInt64]
  by_cases hpower : cfg.numBucketsPerChunkPower.toNat < 7
  · have hpow : 2 ^ cfg.numBucketsPerChunkPower.toNat ≤ 2 ^ 7 :=
      Nat.pow_le_pow_right (by decide) hpower.le
    have hmul : cfg.numChunks.toNat * 2 ^ cfg.numBucketsPerChunkPower.toNat ≤ 2 ^ 32 * 2 ^ 7 :=
      Nat.mul_le_mul hchunks.le hpow
    omega
  · have hdvd : 2 ^ 7 ∣ cfg.totalBuckets.toNat := by
      rw [htotal]
      have hpow : 2 ^ 7 ∣ 2 ^ cfg.numBucketsPerChunkPower.toNat :=
        Nat.pow_dvd_pow 2 (Nat.not_lt.mp hpower)
      exact (Nat.dvd_mod_iff (by decide)).mpr (Dvd.dvd.mul_left hpow _)
    omega

theorem kNextSlotOffset_le (i : Fin 4) : (kNextSlotOffset i).toNat ≤ 97 := by
  revert i
  decide

end Config

/-! ## Slots -/

/-- One step around a circle of `s`. -/
theorem add_mod_wrap {s l o : ℕ} (hl : l < s) (ho : o ≤ s) :
    (l + o) % s = if l + o < s then l + o else l + o - s := by
  split_ifs with h
  · exact Nat.mod_eq_of_lt h
  · rw [Nat.mod_eq_sub_mod (Nat.not_lt.mp h), Nat.mod_eq_of_lt (by omega)]

/-- An accepted configuration in which a shard is at least as long as each distance, and
all shards are full. -/
structure Config.Fits (cfg : Config) : Prop where
  accepted : cfg.Accepted
  offset_le : ∀ i, kNextSlotOffset i ≤ cfg.numBucketsPerShard
  dvd : cfg.numBucketsPerShard.toNat ∣ cfg.totalBuckets.toNat

namespace Config

variable {cfg : Config} {bid curBid : UInt64} {i : Fin 4}

theorem Accepted.shard_pos (h : cfg.Accepted) : 0 < cfg.numBucketsPerShard.toNat := by
  apply Nat.pos_of_ne_zero
  intro hzero
  exact h.numBucketsPerShard_ne (UInt64.toNat_inj.mp hzero)

/-- The shard of a bucket is inside the table. -/
theorem Fits.shard_end_le (h : cfg.Fits) (hbid : bid < cfg.totalBuckets) :
    bid.toNat / cfg.numBucketsPerShard.toNat * cfg.numBucketsPerShard.toNat
      + cfg.numBucketsPerShard.toNat ≤ cfg.totalBuckets.toNat := by
  obtain ⟨n, hn⟩ := h.dvd
  have hlt : bid.toNat < cfg.numBucketsPerShard.toNat * n := hn ▸ hbid
  have hshard : bid.toNat / cfg.numBucketsPerShard.toNat < n := Nat.div_lt_of_lt_mul hlt
  rw [hn, Nat.mul_comm _ n, ← Nat.succ_mul]
  exact Nat.mul_le_mul_right _ hshard

theorem Accepted.toNat_calcSlotBucketId (h : cfg.Accepted)
    (hbid : bid < cfg.totalBuckets) (i : Fin 4) :
    (cfg.calcSlotBucketId bid i).toNat
      = bid.toNat / cfg.numBucketsPerShard.toNat * cfg.numBucketsPerShard.toNat
        + (bid.toNat % cfg.numBucketsPerShard.toNat + (kNextSlotOffset i).toNat)
          % cfg.numBucketsPerShard.toNat := by
  have hmax := totalBuckets_add_le h
  have hoff := kNextSlotOffset_le i
  have hbid' : bid.toNat < cfg.totalBuckets.toNat := hbid
  have hdiv := Nat.div_add_mod' bid.toNat cfg.numBucketsPerShard.toNat
  have hmod := Nat.mod_le (bid.toNat % cfg.numBucketsPerShard.toNat + (kNextSlotOffset i).toNat)
    cfg.numBucketsPerShard.toNat
  have hsum : (bid + kNextSlotOffset i).toNat = bid.toNat + (kNextSlotOffset i).toNat := by
    rw [UInt64.toNat_add, Nat.mod_eq_of_lt (by omega)]
  have hbase : (bid / cfg.numBucketsPerShard * cfg.numBucketsPerShard).toNat
      = bid.toNat / cfg.numBucketsPerShard.toNat * cfg.numBucketsPerShard.toNat := by
    rw [UInt64.toNat_mul, UInt64.toNat_div, Nat.mod_eq_of_lt (by omega)]
  have hlocal : (bid.toNat + (kNextSlotOffset i).toNat) % cfg.numBucketsPerShard.toNat
      = (bid.toNat % cfg.numBucketsPerShard.toNat + (kNextSlotOffset i).toNat)
        % cfg.numBucketsPerShard.toNat := (Nat.mod_add_mod _ _ _).symm
  rw [calcSlotBucketId, UInt64.toNat_add, hbase, UInt64.toNat_mod, hsum, hlocal,
    Nat.mod_eq_of_lt (by omega)]

/-- A slot is in the shard of its bucket, whatever the size of a shard. -/
theorem Accepted.shardId_calcSlotBucketId (h : cfg.Accepted)
    (hbid : bid < cfg.totalBuckets) (i : Fin 4) :
    cfg.shardId (cfg.calcSlotBucketId bid i) = cfg.shardId bid := by
  have hpos := h.shard_pos
  have hmod := Nat.mod_lt (bid.toNat % cfg.numBucketsPerShard.toNat + (kNextSlotOffset i).toNat) hpos
  rw [shardId, shardId, ← UInt64.toNat_inj, UInt64.toNat_div, UInt64.toNat_div,
    h.toNat_calcSlotBucketId hbid, Nat.add_comm, Nat.add_mul_div_right _ _ hpos,
    Nat.div_eq_of_lt hmod, Nat.zero_add]

theorem toNat_originalBucketId_of_le
    (hle : (kNextSlotOffset i).toNat ≤ curBid.toNat % cfg.numBucketsPerShard.toNat) :
    (cfg.originalBucketId curBid i).toNat = curBid.toNat - (kNextSlotOffset i).toNat := by
  have hge : curBid % cfg.numBucketsPerShard ≥ kNextSlotOffset i := by
    rw [ge_iff_le, UInt64.le_iff_toNat_le, UInt64.toNat_mod]
    exact hle
  have hcur : kNextSlotOffset i ≤ curBid := by
    rw [UInt64.le_iff_toNat_le]
    exact hle.trans (Nat.mod_le _ _)
  rw [originalBucketId, if_pos hge, UInt64.toNat_sub_of_le _ _ hcur]

theorem originalBucketId_of_lt
    (hlt : curBid.toNat % cfg.numBucketsPerShard.toNat < (kNextSlotOffset i).toNat) :
    cfg.originalBucketId curBid i = curBid + cfg.numBucketsPerShard - kNextSlotOffset i := by
  have hnot : ¬ curBid % cfg.numBucketsPerShard ≥ kNextSlotOffset i := by
    rw [ge_iff_le, UInt64.le_iff_toNat_le, UInt64.toNat_mod]
    exact Nat.not_le.mpr hlt
  rw [originalBucketId, if_neg hnot]

theorem Fits.toNat_originalBucketId_of_lt (h : cfg.Fits)
    (hlt : curBid.toNat % cfg.numBucketsPerShard.toNat < (kNextSlotOffset i).toNat)
    (hcur : curBid < cfg.totalBuckets) :
    (cfg.originalBucketId curBid i).toNat
      = curBid.toNat + cfg.numBucketsPerShard.toNat - (kNextSlotOffset i).toNat := by
  have hoff : (kNextSlotOffset i).toNat ≤ cfg.numBucketsPerShard.toNat := h.offset_le i
  have hend := h.shard_end_le hcur
  have hmax := totalBuckets_add_le h.accepted
  have hoff' := kNextSlotOffset_le i
  have hdiv := Nat.div_add_mod' curBid.toNat cfg.numBucketsPerShard.toNat
  have hsum : (curBid + cfg.numBucketsPerShard).toNat
      = curBid.toNat + cfg.numBucketsPerShard.toNat := by
    rw [UInt64.toNat_add, Nat.mod_eq_of_lt (by omega)]
  have hle : kNextSlotOffset i ≤ curBid + cfg.numBucketsPerShard := by
    rw [UInt64.le_iff_toNat_le, hsum]
    omega
  rw [originalBucketId_of_lt hlt, UInt64.toNat_sub_of_le _ _ hle, hsum]

/-- A slot is in the shard of its bucket, and `originalBucketId` finds the bucket. -/
theorem Fits.slot_spec (h : cfg.Fits) (hbid : bid < cfg.totalBuckets) (i : Fin 4) :
    cfg.calcSlotBucketId bid i < cfg.totalBuckets ∧
      cfg.shardId (cfg.calcSlotBucketId bid i) = cfg.shardId bid ∧
      cfg.originalBucketId (cfg.calcSlotBucketId bid i) i = bid := by
  have hpos := h.accepted.shard_pos
  have hend := h.shard_end_le hbid
  have hoff : (kNextSlotOffset i).toNat ≤ cfg.numBucketsPerShard.toNat := h.offset_le i
  have hdiv := Nat.div_add_mod' bid.toNat cfg.numBucketsPerShard.toNat
  have hl := Nat.mod_lt bid.toNat hpos
  have hslot := h.accepted.toNat_calcSlotBucketId hbid i
  have hmod := Nat.mod_lt (bid.toNat % cfg.numBucketsPerShard.toNat + (kNextSlotOffset i).toNat) hpos
  have hlt : cfg.calcSlotBucketId bid i < cfg.totalBuckets := by
    rw [UInt64.lt_iff_toNat_lt, hslot]
    omega
  have hlocal : (cfg.calcSlotBucketId bid i).toNat % cfg.numBucketsPerShard.toNat
      = (bid.toNat % cfg.numBucketsPerShard.toNat + (kNextSlotOffset i).toNat)
        % cfg.numBucketsPerShard.toNat := by
    rw [hslot, Nat.mul_add_mod', Nat.mod_mod]
  refine ⟨hlt, h.accepted.shardId_calcSlotBucketId hbid i, ?_⟩
  -- whether the way to the slot wrapped around is told by where the slot is
  rw [← UInt64.toNat_inj]
  have hwrap := add_mod_wrap hl hoff
  by_cases hround : bid.toNat % cfg.numBucketsPerShard.toNat + (kNextSlotOffset i).toNat
      < cfg.numBucketsPerShard.toNat
  · rw [if_pos hround] at hwrap
    rw [toNat_originalBucketId_of_le (by rw [hlocal, hwrap]; omega), hslot, hwrap]
    omega
  · rw [if_neg hround] at hwrap
    rw [h.toNat_originalBucketId_of_lt (by rw [hlocal, hwrap]; omega) hlt, hslot, hwrap]
    omega

theorem Accepted.originalBucketId_ne (h : cfg.Accepted) (hshort : cfg.numBucketsPerShard < 97) :
    cfg.originalBucketId (cfg.calcSlotBucketId (cfg.numBucketsPerShard - 1) 3) 3
      ≠ cfg.numBucketsPerShard - 1 := by
  have hpos := h.shard_pos
  have hshort' : cfg.numBucketsPerShard.toNat < 97 := hshort
  have hbid : (cfg.numBucketsPerShard - 1).toNat = cfg.numBucketsPerShard.toNat - 1 :=
    UInt64.toNat_sub_of_le _ _ hpos
  have hoff : kNextSlotOffset 3 = 97 := rfl
  have hoff' : (97 : UInt64).toNat = 97 := rfl
  have hrem : 96 % cfg.numBucketsPerShard.toNat + cfg.numBucketsPerShard.toNat ≤ 96 := by
    have hdiv := Nat.div_add_mod' 96 cfg.numBucketsPerShard.toNat
    have hone : 1 ≤ 96 / cfg.numBucketsPerShard.toNat :=
      (Nat.one_le_div_iff hpos).mpr (by omega)
    have hmul := Nat.mul_le_mul_right cfg.numBucketsPerShard.toNat hone
    omega
  -- the slot is the bucket 96 modulo the size of the shard
  have hslot : (cfg.calcSlotBucketId (cfg.numBucketsPerShard - 1) 3).toNat
      = 96 % cfg.numBucketsPerShard.toNat := by
    have hsum : cfg.numBucketsPerShard.toNat - 1 + 97 = cfg.numBucketsPerShard.toNat + 96 := by
      omega
    have hbase : (cfg.numBucketsPerShard.toNat - 1) / cfg.numBucketsPerShard.toNat = 0 :=
      Nat.div_eq_of_lt (by omega)
    rw [calcSlotBucketId, UInt64.toNat_add, UInt64.toNat_mul, UInt64.toNat_div, UInt64.toNat_mod,
      UInt64.toNat_add, hbid, hoff, hoff', hbase, Nat.zero_mul, Nat.zero_mod, Nat.zero_add, hsum,
      Nat.mod_eq_of_lt (a := cfg.numBucketsPerShard.toNat + 96) (by omega), Nat.add_mod_left,
      Nat.mod_eq_of_lt (by omega)]
  have hlt : (cfg.calcSlotBucketId (cfg.numBucketsPerShard - 1) 3).toNat
      % cfg.numBucketsPerShard.toNat < (kNextSlotOffset 3).toNat := by
    have hmod := Nat.mod_lt (cfg.calcSlotBucketId (cfg.numBucketsPerShard - 1) 3).toNat hpos
    rw [hoff, hoff']
    omega
  rw [originalBucketId_of_lt hlt, ← UInt64.toNat_inj.ne, UInt64.toNat_sub, UInt64.toNat_add, hslot,
    hbid, hoff, hoff']
  omega

end Config

/-! ## `reset` -/

namespace ResetState

variable {cfg : Config}

theorem toNat_totalShards (h : cfg.Accepted) :
    cfg.totalShards.toNat = (cfg.totalBuckets.toNat - 1) / cfg.numBucketsPerShard.toNat + 1 := by
  have hshard : cfg.numBucketsPerShard.toNat ≤ cfg.totalBuckets.toNat := h.shard_le
  have hpos := h.shard_pos
  have hone : (1 : UInt64) ≤ cfg.totalBuckets := by
    rw [UInt64.le_iff_toNat_le]
    exact hpos.trans_le hshard
  have hle := Nat.div_le_self (cfg.totalBuckets.toNat - 1) cfg.numBucketsPerShard.toNat
  have hlt := cfg.totalBuckets.toNat_lt
  have hunit : (1 : UInt64).toNat = 1 := rfl
  rw [Config.totalShards, UInt64.toNat_add, UInt64.toNat_div, UInt64.toNat_sub_of_le _ _ hone, hunit,
    Nat.mod_eq_of_lt (by omega)]

theorem totalShards_mul (h : cfg.Accepted) :
    cfg.totalBuckets.toNat ≤ cfg.totalShards.toNat * cfg.numBucketsPerShard.toNat ∧
      (cfg.totalShards.toNat - 1) * cfg.numBucketsPerShard.toNat < cfg.totalBuckets.toNat := by
  have hshard : cfg.numBucketsPerShard.toNat ≤ cfg.totalBuckets.toNat := h.shard_le
  have hpos := h.shard_pos
  have hdiv := Nat.div_add_mod' (cfg.totalBuckets.toNat - 1) cfg.numBucketsPerShard.toNat
  have hmod := Nat.mod_lt (cfg.totalBuckets.toNat - 1) hpos
  rw [toNat_totalShards h, Nat.add_mul, Nat.add_sub_cancel]
  omega

/-- What holds of the counters when all shards are full and can be counted. -/
structure Sound (cfg : Config) (s : ResetState) : Prop where
  bucketId : s.bucketId.toNat = s.i.toNat * cfg.numBucketsPerShard.toNat + s.j.toNat
  j_le : s.j.toNat ≤ cfg.numBucketsPerShard.toNat
  i_le : s.i.toNat ≤ cfg.totalShards.toNat
  ended : s.i.toNat = cfg.totalShards.toNat → s.j.toNat = 0

theorem toNat_toUInt64_lt {i : UInt32} {n : UInt64} : i.toUInt64 < n ↔ i.toNat < n.toNat := by
  rw [UInt64.lt_iff_toNat_lt, UInt32.toNat_toUInt64]

theorem Sound.writes_lt {s : ResetState} (h : s.Sound cfg)
    (hfull : cfg.totalShards.toNat * cfg.numBucketsPerShard.toNat = cfg.totalBuckets.toNat)
    {b : UInt64} (hb : s.writes cfg = some b) : b < cfg.totalBuckets := by
  simp only [writes, Option.ite_none_right_eq_some, Option.some.injEq, toNat_toUInt64_lt] at hb
  obtain ⟨⟨hi, hj⟩, rfl⟩ := hb
  have hj' : s.j.toNat < cfg.numBucketsPerShard.toNat := hj
  have hmul : (s.i.toNat + 1) * cfg.numBucketsPerShard.toNat
      ≤ cfg.totalShards.toNat * cfg.numBucketsPerShard.toNat := Nat.mul_le_mul_right _ hi
  rw [Nat.add_mul] at hmul
  rw [UInt64.lt_iff_toNat_lt, h.bucketId]
  omega

theorem Sound.next {s : ResetState} (h : s.Sound cfg)
    (hfull : cfg.totalShards.toNat * cfg.numBucketsPerShard.toNat = cfg.totalBuckets.toNat)
    (hcount : cfg.totalShards.toNat < 2 ^ 32) : (s.next cfg).Sound cfg := by
  unfold ResetState.next
  have htotal := cfg.totalBuckets.toNat_lt
  have hunit : (1 : UInt64).toNat = 1 := rfl
  by_cases hi : s.i.toUInt64 < cfg.totalShards
  · have hi' := toNat_toUInt64_lt.mp hi
    have hmul : (s.i.toNat + 1) * cfg.numBucketsPerShard.toNat
        ≤ cfg.totalShards.toNat * cfg.numBucketsPerShard.toNat := Nat.mul_le_mul_right _ hi'
    rw [Nat.add_mul] at hmul
    have hbucketId := h.bucketId
    rw [if_pos hi]
    by_cases hj : s.j < cfg.numBucketsPerShard
    · have hj' : s.j.toNat < cfg.numBucketsPerShard.toNat := hj
      have hnext : (s.j + 1).toNat = s.j.toNat + 1 := by
        rw [UInt64.toNat_add, hunit, Nat.mod_eq_of_lt (by omega)]
      have hbucket : (s.bucketId + 1).toNat = s.bucketId.toNat + 1 := by
        rw [UInt64.toNat_add, hunit, Nat.mod_eq_of_lt (by omega)]
      rw [if_pos hj]
      refine ⟨?_, ?_, h.i_le, ?_⟩
      · rw [hbucket, hnext, h.bucketId, Nat.add_assoc]
      · rw [hnext]
        exact hj'
      · intro hend
        exact absurd hend (Nat.ne_of_lt hi')
    · have hj' : s.j.toNat = cfg.numBucketsPerShard.toNat :=
        Nat.le_antisymm h.j_le (UInt64.not_lt.mp hj)
      have hnext : (s.i + 1).toNat = s.i.toNat + 1 := by
        have hunit32 : (1 : UInt32).toNat = 1 := rfl
        rw [UInt32.toNat_add, hunit32, Nat.mod_eq_of_lt (by omega)]
      rw [if_neg hj]
      refine ⟨?_, Nat.zero_le _, ?_, fun _ => rfl⟩
      · change s.bucketId.toNat = (s.i + 1).toNat * cfg.numBucketsPerShard.toNat + 0
        rw [hnext, h.bucketId, hj', Nat.add_mul, Nat.one_mul, Nat.add_zero]
      · rw [hnext]
        exact hi'
  · rw [if_neg hi]
    exact h

theorem sound_after (n : ℕ)
    (hfull : cfg.totalShards.toNat * cfg.numBucketsPerShard.toNat = cfg.totalBuckets.toNat)
    (hcount : cfg.totalShards.toNat < 2 ^ 32) : (after cfg n).Sound cfg := by
  induction n with
  | zero =>
      refine ⟨?_, Nat.zero_le _, Nat.zero_le _, fun _ => rfl⟩
      change 0 = 0 * cfg.numBucketsPerShard.toNat + 0
      rw [Nat.zero_mul]
  | succ n ih => exact ih.next hfull hcount

/-- The counters after `m` shards and `r` buckets of the next, the shards counted in 32
bits. -/
def countedTo (cfg : Config) (m r : ℕ) : ResetState :=
  ⟨UInt32.ofNat m, UInt64.ofNat r, UInt64.ofNat (m * cfg.numBucketsPerShard.toNat + r)⟩

/-- The outer loop has not ended after `m` shards. -/
def Runs (cfg : Config) (m : ℕ) : Prop := (UInt32.ofNat m).toUInt64 < cfg.totalShards

theorem next_inner {m r : ℕ} (hm : Runs cfg m) (hr : r < cfg.numBucketsPerShard.toNat) :
    (countedTo cfg m r).next cfg = countedTo cfg m (r + 1) := by
  have hj : UInt64.ofNat r < cfg.numBucketsPerShard := by
    rw [UInt64.lt_iff_toNat_lt, UInt64.toNat_ofNat_of_lt' (hr.trans cfg.numBucketsPerShard.toNat_lt)]
    exact hr
  unfold ResetState.next
  rw [if_pos (show (countedTo cfg m r).i.toUInt64 < _ from hm),
    if_pos (show (countedTo cfg m r).j < _ from hj)]
  have hnext : UInt64.ofNat (r + 1) = UInt64.ofNat r + 1 := UInt64.ofNat_add r 1
  have hbucket : UInt64.ofNat (m * cfg.numBucketsPerShard.toNat + (r + 1))
      = UInt64.ofNat (m * cfg.numBucketsPerShard.toNat + r) + 1 := UInt64.ofNat_add _ 1
  simp only [countedTo, hnext, hbucket]

theorem next_outer {m : ℕ} (hm : Runs cfg m) :
    (countedTo cfg m cfg.numBucketsPerShard.toNat).next cfg = countedTo cfg (m + 1) 0 := by
  have hj : ¬ UInt64.ofNat cfg.numBucketsPerShard.toNat < cfg.numBucketsPerShard := by
    rw [UInt64.ofNat_toNat]
    exact UInt64.lt_irrefl _
  unfold ResetState.next
  rw [if_pos (show (countedTo cfg m _).i.toUInt64 < _ from hm),
    if_neg (show ¬ (countedTo cfg m _).j < _ from hj)]
  have hnext : UInt32.ofNat (m + 1) = UInt32.ofNat m + 1 := UInt32.ofNat_add m 1
  simp only [countedTo, hnext, Nat.add_mul, Nat.one_mul, Nat.add_zero]
  rfl

/-- As long as the outer loop runs, `reset` goes through the buckets one by one. -/
theorem exists_after {m : ℕ} (hm : ∀ k ≤ m, Runs cfg k) {r : ℕ}
    (hr : r ≤ cfg.numBucketsPerShard.toNat) : ∃ n, after cfg n = countedTo cfg m r := by
  induction m generalizing r with
  | zero =>
      induction r with
      | zero =>
          refine ⟨0, ?_⟩
          simp only [after, countedTo, Nat.zero_mul, Nat.add_zero]
          rfl
      | succ r ih =>
          obtain ⟨n, hn⟩ := ih (Nat.le_of_succ_le hr)
          exact ⟨n + 1, by rw [after, hn, next_inner (hm 0 (Nat.le_refl 0)) hr]⟩
  | succ m ihm =>
      induction r with
      | zero =>
          obtain ⟨n, hn⟩ := ihm (fun k hk => hm k (Nat.le_succ_of_le hk)) (Nat.le_refl _)
          exact ⟨n + 1, by rw [after, hn, next_outer (hm m (Nat.le_succ m))]⟩
      | succ r ih =>
          obtain ⟨n, hn⟩ := ih (Nat.le_of_succ_le hr)
          exact ⟨n + 1, by rw [after, hn, next_inner (hm (m + 1) (Nat.le_refl _)) hr]⟩

theorem writes_totalBuckets {m r : ℕ} (hm : ∀ k ≤ m, Runs cfg k)
    (hr : r < cfg.numBucketsPerShard.toNat)
    (hend : m * cfg.numBucketsPerShard.toNat + r = cfg.totalBuckets.toNat) :
    ∃ n, (after cfg n).writes cfg = some cfg.totalBuckets := by
  obtain ⟨n, hn⟩ := exists_after hm hr.le
  have hj : UInt64.ofNat r < cfg.numBucketsPerShard := by
    rw [UInt64.lt_iff_toNat_lt, UInt64.toNat_ofNat_of_lt' (hr.trans cfg.numBucketsPerShard.toNat_lt)]
    exact hr
  refine ⟨n, ?_⟩
  rw [hn, writes, if_pos ⟨hm m (Nat.le_refl m), hj⟩]
  change some (UInt64.ofNat (m * cfg.numBucketsPerShard.toNat + r)) = _
  rw [hend, UInt64.ofNat_toNat]

theorem runs_iff {m : ℕ} : Runs cfg m ↔ m % 2 ^ 32 < cfg.totalShards.toNat := by
  rw [Runs, toNat_toUInt64_lt, UInt32.toNat_ofNat']

/-- No iteration of `reset` writes outside of the table. -/
def InTable (cfg : Config) : Prop :=
  ∀ n b, (after cfg n).writes cfg = some b → b < cfg.totalBuckets

/-- `reset` stays in the table exactly if all shards are full and a 32-bit counter can
reach their number. -/
theorem inTable_iff (h : cfg.Accepted) :
    InTable cfg ↔
      cfg.numBucketsPerShard.toNat ∣ cfg.totalBuckets.toNat ∧ cfg.totalShards.toNat < 2 ^ 32 := by
  have hpos := h.shard_pos
  obtain ⟨hcover, hlast⟩ := totalShards_mul h
  have hdiv := Nat.div_add_mod' cfg.totalBuckets.toNat cfg.numBucketsPerShard.toNat
  have hmod := Nat.mod_lt cfg.totalBuckets.toNat hpos
  have hshards := toNat_totalShards h
  constructor
  · intro hin
    have hnot : ∀ m r, (∀ k ≤ m, Runs cfg k) → r < cfg.numBucketsPerShard.toNat →
        m * cfg.numBucketsPerShard.toNat + r ≠ cfg.totalBuckets.toNat := by
      intro m r hm hr hend
      obtain ⟨n, hn⟩ := writes_totalBuckets hm hr hend
      exact absurd (hin n _ hn) (UInt64.lt_irrefl _)
    have hdvd : cfg.numBucketsPerShard.toNat ∣ cfg.totalBuckets.toNat := by
      by_contra hndvd
      -- the last shard is entered, and counted through to its end
      have hrem : 0 < cfg.totalBuckets.toNat % cfg.numBucketsPerShard.toNat :=
        Nat.pos_of_ne_zero fun hzero => hndvd (Nat.dvd_of_mod_eq_zero hzero)
      refine hnot (cfg.totalBuckets.toNat / cfg.numBucketsPerShard.toNat) _ ?_ hmod hdiv
      intro k hk
      have hlt : cfg.totalBuckets.toNat / cfg.numBucketsPerShard.toNat < cfg.totalShards.toNat := by
        rw [hshards, Nat.lt_succ_iff, Nat.le_div_iff_mul_le hpos]
        omega
      rw [runs_iff]
      have hkmod := Nat.mod_le k (2 ^ 32)
      omega
    refine ⟨hdvd, ?_⟩
    by_contra hlarge
    -- a counter that wraps around never reaches the number of shards
    refine hnot (cfg.totalBuckets.toNat / cfg.numBucketsPerShard.toNat) 0 ?_ hpos ?_
    · intro k _
      rw [runs_iff]
      have hkmod := Nat.mod_lt k (show 0 < 2 ^ 32 by decide)
      omega
    · rw [Nat.add_zero, Nat.div_mul_cancel hdvd]
  · rintro ⟨⟨q, hq⟩, hcount⟩ n b hb
    have hfull : cfg.totalShards.toNat * cfg.numBucketsPerShard.toNat = cfg.totalBuckets.toNat := by
      have hq1 : cfg.totalShards.toNat - 1 < q := by
        rw [hq, Nat.mul_comm] at hlast
        exact Nat.lt_of_mul_lt_mul_left hlast
      have hq2 : q ≤ cfg.totalShards.toNat := by
        rw [hq, Nat.mul_comm] at hcover
        exact Nat.le_of_mul_le_mul_right hcover hpos
      have hpos' : 0 < cfg.totalShards.toNat := by rw [hshards]; exact Nat.succ_pos _
      have heq : cfg.totalShards.toNat = q := by omega
      rw [heq, hq, Nat.mul_comm]
    exact (sound_after n hfull hcount).writes_lt hfull hb

end ResetState

/-! ## The index stays in its table -/

/-- Every slot of every bucket is a bucket of the table in the same shard, from which the
way back leads to the bucket. -/
def SlotsSound (cfg : Config) : Prop :=
  ∀ bid < cfg.totalBuckets, ∀ i, cfg.calcSlotBucketId bid i < cfg.totalBuckets ∧
    cfg.shardId (cfg.calcSlotBucketId bid i) = cfg.shardId bid ∧
    cfg.originalBucketId (cfg.calcSlotBucketId bid i) i = bid

/-- **When the index stays in its table.** Of the configurations that are accepted, it is
those whose shards are as long as every distance, divide the table, and are fewer than
`2 ^ 32`. -/
theorem index_in_table_iff {cfg : BlockCacheIndexConfig} (useCombinedEntryBlock : Bool)
    (hfixed : cfg.enableFixedSizeIndex = true) (hvalid : cfg.validate = .ok ()) :
    let index := createIndex cfg useCombinedEntryBlock
    SlotsSound index ∧ ResetState.InTable index ↔
      (∀ i, kNextSlotOffset i ≤ index.numBucketsPerShard) ∧
        index.numBucketsPerShard.toNat ∣ index.totalBuckets.toNat ∧
        index.totalShards.toNat < 2 ^ 32 := by
  intro index
  have haccepted : index.Accepted := accepted_of_validate useCombinedEntryBlock hfixed hvalid
  rw [ResetState.inTable_iff haccepted]
  constructor
  · rintro ⟨hslots, hreset⟩
    refine ⟨?_, hreset⟩
    have hlong : ¬ index.numBucketsPerShard < 97 := by
      intro hshort
      have hpos := haccepted.shard_pos
      have hlast : index.numBucketsPerShard - 1 < index.totalBuckets := by
        have hle : index.numBucketsPerShard.toNat ≤ index.totalBuckets.toNat := haccepted.shard_le
        rw [UInt64.lt_iff_toNat_lt, UInt64.toNat_sub_of_le _ _ hpos]
        exact (Nat.sub_lt hpos Nat.one_pos).trans_le hle
      exact haccepted.originalBucketId_ne hshort (hslots _ hlast 3).2.2
    intro i
    have hoff := Config.kNextSlotOffset_le i
    have hlong' : 97 ≤ index.numBucketsPerShard.toNat := UInt64.not_lt.mp hlong
    exact hoff.trans hlong'
  · rintro ⟨hoffset, hdvd, hcount⟩
    have hfits : index.Fits := ⟨haccepted, hoffset, hdvd⟩
    exact ⟨fun bid hbid i => hfits.slot_spec hbid i, hdvd, hcount⟩

/-- The default number of buckets per mutex. -/
def defaultMutex : BlockCacheIndexConfig :=
  { enableFixedSizeIndex := true, persistUsingShm := true, numChunks := 1
    numBucketsPerChunkPower := 10 }

/-- Twice as many. -/
def largerMutex : BlockCacheIndexConfig := { defaultMutex with numBucketsPerMutex := 128 }

theorem index_in_table_largerMutex :
    SlotsSound (createIndex largerMutex false) ∧
      ResetState.InTable (createIndex largerMutex false) := by
  refine (index_in_table_iff false rfl rfl).mpr ⟨by decide, ?_, by decide⟩
  exact ⟨8, by decide⟩

/-- With the default, the way back from a slot leads out of the table. -/
theorem default_slot_not_undone :
    defaultMutex.validate = .ok () ∧ (63 : UInt64) < (createIndex defaultMutex false).totalBuckets ∧
      (createIndex defaultMutex false).originalBucketId
        ((createIndex defaultMutex false).calcSlotBucketId 63 3) 3 = 0xffffffffffffffff ∧
      ¬ SlotsSound (createIndex defaultMutex false) := by
  refine ⟨rfl, by decide, by decide, ?_⟩
  intro hslots
  exact absurd (hslots 63 (by decide) 3).2.2 (by decide)

end FixedSizeIndex

end CacheLib.Navy
