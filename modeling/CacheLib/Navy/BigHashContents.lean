/-
What `BigHash` serves is what was inserted, whatever fails.

The invariant is about the buckets that are still served (`Sound`). Such a bucket is either
none of the present generation, and then as good as empty, or it holds entries with
different keys that belong there; each of them has the value that was inserted last, and
the Bloom filter lets it pass. A write that fails breaks all this for its bucket, which is
never read again.
-/
import CacheLib.Navy.BigHash
import Mathlib.Data.List.Nodup
import Mathlib.Data.Nat.ModEq

set_option autoImplicit false

namespace CacheLib.Navy

open Bytes Bucket BucketStorage BucketEntry Function List Option

/-! ## Buckets in buffers -/

namespace Bucket

variable {b : Bucket} {es : List BucketEntry} {m m' : Memory}

theorem read_eq_of_agree {a n : ℕ} (h : ∀ i < a + n, m i = m' i) : read m a n = read m' a n :=
  read_congr fun i _ hi => h i hi

/-- The fields of a bucket are in its first 24 bytes. -/
theorem decode_of_agree (h : ∀ i < headerSize, m i = m' i) :
    decode m = { decode m' with storage.data := fun i => m (headerSize + i) } := by
  have hread : ∀ a n, a + n ≤ headerSize → read m a n = read m' a n := fun a n hle =>
    read_eq_of_agree fun i hi => h i (Nat.lt_of_lt_of_le hi hle)
  unfold decode
  rw [hread 0 4 (by decide), hread 4 8 (by decide), hread 12 4 (by decide), hread 16 4 (by decide),
    hread 20 4 (by decide)]

theorem length_header (b : Bucket) : b.header.length = 20 := by
  simp only [header, length_append, length_toLE]

theorem encode_data (b : Bucket) (i : ℕ) : b.encode (headerSize + i) = b.storage.data i := by
  have hlength : (toLE 4 b.checksum.toNat ++ b.header).length = headerSize := by
    rw [length_append, length_toLE, length_header]
    rfl
  rw [encode, write_of_outside (Or.inr (by omega)), Nat.add_sub_cancel_left]

/-- **A bucket in a buffer is read back as it was.** -/
theorem decode_encode (hholds : b.Holds es) : decode b.encode = b := by
  have hcapacity := hholds.capacity_lt
  have hend := Nat.lt_of_le_of_lt hholds.endOffset_le hcapacity
  have hnum : b.storage.numAllocations < 2 ^ 32 := by
    rw [hholds.numAllocations_eq, length_map]
    exact hholds.length_lt
  have hheader := at_write (fun i => b.storage.data (i - headerSize)) 0
    (toLE 4 b.checksum.toNat ++ b.header)
  simp only [header, at_append, length_append, length_toLE] at hheader
  obtain ⟨hchecksum, ⟨⟨htime, hcap⟩, hallocs⟩, hoffset⟩ := hheader
  have hdata : (fun i => b.encode (headerSize + i)) = b.storage.data := funext (encode_data b)
  have h0 : ofLE (read b.encode 0 4) = b.checksum.toNat := hchecksum.ofLE_read b.checksum.toNat_lt
  have h4 : ofLE (read b.encode 4 8) = b.generationTime.toNat :=
    htime.ofLE_read b.generationTime.toNat_lt
  have h12 : ofLE (read b.encode 12 4) = b.storage.capacity := hcap.ofLE_read hcapacity
  have h16 : ofLE (read b.encode 16 4) = b.storage.numAllocations := hallocs.ofLE_read hnum
  have h20 : ofLE (read b.encode 20 4) = b.storage.endOffset := hoffset.ofLE_read hend
  simp only [decode, h0, h4, h12, h16, h20, hdata, UInt32.ofNat_toNat, UInt64.ofNat_toNat]

/-- The bytes behind the checksum do not depend on it. -/
theorem read_encode_checksum (b : Bucket) (checksum : UInt32) (n : ℕ) :
    read ({ b with checksum := checksum } : Bucket).encode 4 n = read b.encode 4 n := by
  apply read_congr
  intro i hi _
  unfold encode write
  rw [if_pos (Nat.zero_le i), if_pos (Nat.zero_le i)]
  show (toLE 4 checksum.toNat ++ b.header).getD (i - 0) _
    = (toLE 4 b.checksum.toNat ++ b.header).getD (i - 0) _
  rw [Nat.sub_zero, getD_append_right _ _ _ _ (by rwa [length_toLE]),
    getD_append_right _ _ _ _ (by rwa [length_toLE]), length_toLE, length_toLE]

/-- What a bucket holds is in its data, up to the end offset. -/
theorem Holds.of_agree (h : b.Holds es) {data : Memory}
    (hdata : ∀ i < b.storage.endOffset, data i = b.storage.data i) :
    ({ b with storage.data := data } : Bucket).Holds es where
  content := by
    rw [At, ← h.endOffset_eq]
    rw [read_eq_of_agree fun i hi => hdata i (by omega), h.endOffset_eq]
    exact h.content
  endOffset_eq := h.endOffset_eq
  numAllocations_eq := h.numAllocations_eq
  endOffset_le := h.endOffset_le
  capacity_lt := h.capacity_lt

end Bucket

namespace BigHash

open BlockCache (Status powTwoAlign)

variable {cfg : Config} {env : Env} {s s' : State} {bid bid' : ℕ} {es : List BucketEntry}

/-! ## Configurations -/

/-- A configuration under which each buffer is a bucket, each bucket has a bit, and the sizes of the
Bloom filter do not overflow. -/
structure Config.Regular (cfg : Config) : Prop where
  accepted : cfg.validate = .ok ()
  header_le : headerSize ≤ cfg.bucketSize.toNat
  aligned : ∀ device, cfg.device = some device → device.ioAlignmentSize ∣ cfg.bucketSize.toNat
  numBuckets_lt : cfg.numBuckets + bucketsPerBit ≤ 2 ^ 32
  roomy : ∀ bf ∈ cfg.bloomFilter, bf.Roomy

/-- What `validate` makes sure of. -/
structure Config.Accepted (cfg : Config) : Prop where
  bucketSize_le : cfg.bucketSize.toNat ≤ cfg.cacheSize.toNat
  isPowerOfTwo : cfg.bucketSize.toNat.isPowerOfTwo
  cacheSize_le : cfg.cacheSize.toNat ≤ cfg.bucketSize.toNat <<< 32
  base_mod : cfg.cacheBaseOffset.toNat % cfg.bucketSize.toNat = 0
  cacheSize_mod : cfg.cacheSize.toNat % cfg.bucketSize.toNat = 0
  numFilters_eq : ∀ bf ∈ cfg.bloomFilter, bf.numFilters.toNat = cfg.numBuckets

theorem accepted_of_validate (h : cfg.validate = .ok ()) : cfg.Accepted := by
  unfold Config.validate at h
  split_ifs at h with hle hpow hcache hmod
  rw [not_or, not_not, not_not] at hmod
  refine ⟨Nat.le_of_not_lt hle, hpow, Nat.le_of_not_lt hcache, hmod.1, hmod.2, fun bf hbf => ?_⟩
  rw [mem_def.mp hbf] at h
  by_contra hne
  cases (if_pos hne).symm.trans h

namespace Config.Regular

theorem bucketSize_pos (h : cfg.Regular) : 0 < cfg.bucketSize.toNat :=
  Nat.lt_of_lt_of_le (by decide) h.header_le

theorem numBuckets_pos (h : cfg.Regular) : 0 < cfg.numBuckets :=
  Nat.div_pos (accepted_of_validate h.accepted).bucketSize_le h.bucketSize_pos

theorem bufferSize_eq (h : cfg.Regular) : cfg.bufferSize = cfg.bucketSize.toNat := by
  unfold Config.bufferSize
  split
  · rfl
  · rename_i device hdevice
    obtain ⟨k, hk⟩ := h.aligned device hdevice
    have hpos : 0 < device.ioAlignmentSize := Nat.pos_of_ne_zero device.ioAlignmentSize_ne
    have hdiv : (device.ioAlignmentSize * k + (device.ioAlignmentSize - 1)) / device.ioAlignmentSize
        = k := by
      rw [Nat.mul_add_div hpos, Nat.div_eq_of_lt (by omega), Nat.add_zero]
    rw [hk, powTwoAlign, hdiv, Nat.mul_comm]

theorem getBucketId_lt (h : cfg.Regular) (hk : HashedKey) : cfg.getBucketId hk < cfg.numBuckets := by
  have hmod := Nat.mod_lt hk.keyHash.toNat h.numBuckets_pos
  have hlt := h.numBuckets_lt
  unfold Config.getBucketId
  rw [Nat.mod_eq_of_lt (a := hk.keyHash.toNat % cfg.numBuckets) (by omega)]
  exact hmod

/-- Every bucket has a bit. -/
theorem bit_lt (h : cfg.Regular) (hbid : bid < cfg.numBuckets) :
    bid / bucketsPerBit / 8 < checkerBytes cfg := by
  have hlt := h.numBuckets_lt
  unfold checkerBytes bucketsPerBit at *
  dsimp only
  omega

/-- **Buckets do not overlap on the device.** -/
theorem offset_disjoint (h : cfg.Regular) (hbid : bid < cfg.numBuckets)
    (hbid' : bid' < cfg.numBuckets) (hne : bid ≠ bid') :
    cfg.getBucketOffset bid + cfg.bucketSize.toNat ≤ cfg.getBucketOffset bid' ∨
      cfg.getBucketOffset bid' + cfg.bucketSize.toNat ≤ cfg.getBucketOffset bid := by
  have hacc := accepted_of_validate h.accepted
  obtain ⟨k, hk⟩ := hacc.isPowerOfTwo
  have hk64 : k ≤ 64 := by
    have hlt : 2 ^ k < 2 ^ 32 := hk ▸ cfg.bucketSize.toNat_lt
    have := (Nat.pow_lt_pow_iff_right (by decide : 1 < 2)).mp hlt
    omega
  obtain ⟨base, hbase⟩ := Nat.dvd_of_mod_eq_zero hacc.base_mod
  -- offsets are counted in buckets, and the device in 2 ^ 64 bytes
  have hwhole : 2 ^ 64 = cfg.bucketSize.toNat * 2 ^ (64 - k) := by
    rw [hk, ← Nat.pow_add, Nat.add_sub_cancel' hk64]
  have hoffset : ∀ n, cfg.getBucketOffset n
      = cfg.bucketSize.toNat * ((base + n) % 2 ^ (64 - k)) := by
    intro n
    rw [Config.getBucketOffset, hbase, ← Nat.mul_add, hwhole, Nat.mul_mod_mul_left]
  have hnum : cfg.numBuckets ≤ 2 ^ (64 - k) := by
    have hle : cfg.numBuckets * cfg.bucketSize.toNat ≤ 2 ^ (64 - k) * cfg.bucketSize.toNat := by
      rw [Nat.mul_comm (2 ^ (64 - k)), ← hwhole]
      exact Nat.le_trans (Nat.div_mul_le_self _ _) (Nat.le_of_lt cfg.cacheSize.toNat_lt)
    exact Nat.le_of_mul_le_mul_right hle h.bucketSize_pos
  have hdiff : (base + bid) % 2 ^ (64 - k) ≠ (base + bid') % 2 ^ (64 - k) := by
    intro heq
    have hmod : Nat.ModEq (2 ^ (64 - k)) bid bid' := Nat.ModEq.add_left_cancel' base heq
    exact hne (hmod.eq_of_lt_of_lt (by omega) (by omega))
  rw [hoffset, hoffset, ← Nat.mul_succ, ← Nat.mul_succ]
  rcases Nat.lt_or_gt_of_ne hdiff with hlt | hlt
  · exact Or.inl (Nat.mul_le_mul_left _ hlt)
  · exact Or.inr (Nat.mul_le_mul_left _ hlt)

end Config.Regular

/-! ## Reading and writing a bucket -/

/-- Whatever is behind the buffer, reading the bucket gives one that holds `es`. -/
def Stores (cfg : Config) (s : State) (bid : ℕ) (es : List BucketEntry) : Prop :=
  ∀ env, (checkBucket cfg s (buffer cfg env s bid)).Holds es ∧
    (checkBucket cfg s (buffer cfg env s bid)).storage.capacity
      = cfg.bucketSize.toNat - headerSize ∧
    (checkBucket cfg s (buffer cfg env s bid)).generationTime = s.generationTime

/-- There is no bucket of the present generation at this place. -/
def Blank (cfg : Config) (s : State) (bid : ℕ) : Prop :=
  let buffer := buffer cfg {} s bid
  s.generationTime ≠ (decode buffer).generationTime ∨
    computeChecksum cfg buffer ≠ (decode buffer).checksum

theorem buffer_of_lt {i : ℕ} (hi : i < cfg.bufferSize) :
    buffer cfg env s bid i = s.device (cfg.getBucketOffset bid + i) :=
  if_pos hi

/-- Only what is in the buffer counts for whether a bucket is valid. -/
theorem checkBucket_congr (hreg : cfg.Regular) {m m' : Memory}
    (h : ∀ i < cfg.bucketSize.toNat, m i = m' i) :
    (decode m).generationTime = (decode m').generationTime ∧
      (decode m).checksum = (decode m').checksum ∧
      computeChecksum cfg m = computeChecksum cfg m' := by
  have hdecode : decode m = _ :=
    decode_of_agree fun i hi => h i (Nat.lt_of_lt_of_le hi hreg.header_le)
  have hsize := hreg.bufferSize_eq
  have hheader : 24 ≤ cfg.bucketSize.toNat := hreg.header_le
  refine ⟨by rw [hdecode], by rw [hdecode], ?_⟩
  unfold computeChecksum
  rw [read_eq_of_agree fun i hi => h i (by omega)]

theorem stores_of_blank (hreg : cfg.Regular) (h : Blank cfg s bid) : Stores cfg s bid [] := by
  intro env
  have hagree : ∀ i < cfg.bucketSize.toNat, buffer cfg env s bid i = buffer cfg {} s bid i := by
    intro i hi
    rw [← hreg.bufferSize_eq] at hi
    rw [buffer_of_lt hi, buffer_of_lt hi]
  obtain ⟨htime, hchecksum, hcompute⟩ := checkBucket_congr hreg hagree
  have hcheck : checkBucket cfg s (buffer cfg env s bid)
      = initNew cfg.bufferSize (decode (buffer cfg env s bid)).storage.data
          s.generationTime := by
    unfold checkBucket
    dsimp only
    rw [htime, hchecksum, hcompute]
    exact if_pos h
  rw [hcheck]
  refine ⟨holds_initNew _ _ _, ?_, rfl⟩
  have hlt := cfg.bucketSize.toNat_lt
  show sub32 cfg.bufferSize headerSize = _
  rw [hreg.bufferSize_eq]
  exact sub32_of_le hreg.header_le hlt

/-- **A bucket that has been written is read back.** -/
theorem stores_of_write (hreg : cfg.Regular) {b : Bucket} (hholds : b.Holds es)
    (hcapacity : b.storage.capacity = cfg.bucketSize.toNat - headerSize)
    (htime : b.generationTime = s.generationTime) (hwrite : env.writeOk = true) :
    Stores cfg (writeBucket cfg env s bid b).1 bid es := by
  have hsize := hreg.bufferSize_eq
  have hheader : 24 ≤ cfg.bucketSize.toNat := hreg.header_le
  let b' : Bucket := { b with checksum := computeChecksum cfg b.encode }
  have hholds' : b'.Holds es := hholds
  intro env'
  let device := write s.device (cfg.getBucketOffset bid) (read b'.encode 0 cfg.bufferSize)
  have hstate : (writeBucket cfg env s bid b).1 = { s with device := device } := by
    rw [writeBucket, if_pos hwrite]
  rw [hstate]
  generalize hm : buffer cfg env' _ bid = m
  have hagree : ∀ i < cfg.bucketSize.toNat, m i = b'.encode i := by
    intro i hi
    rw [← hsize] at hi
    rw [← hm, buffer_of_lt hi]
    have hi' : i < (read b'.encode 0 cfg.bufferSize).length := by rwa [length_read]
    show write s.device _ _ (cfg.getBucketOffset bid + i) = _
    rw [write_of_mem hi', getElem_read, Nat.zero_add]
  have hdecode : decode m = { b' with storage.data := fun i => m (headerSize + i) } := by
    rw [decode_of_agree fun i hi => hagree i (Nat.lt_of_lt_of_le hi hreg.header_le),
      decode_encode hholds']
  have hcompute : computeChecksum cfg m = b'.checksum := by
    unfold computeChecksum
    rw [read_eq_of_agree fun i hi => hagree i (by omega), read_encode_checksum]
    rfl
  have hcheck : checkBucket cfg { s with device := device } m = decode m := by
    unfold checkBucket
    dsimp only
    rw [hdecode, if_neg]
    rw [not_or, not_not, not_not]
    exact ⟨htime.symm, hcompute⟩
  rw [hcheck, hdecode]
  refine ⟨hholds'.of_agree ?_, hcapacity, htime⟩
  intro i hi
  have hle := hholds.endOffset_le
  have hi' : i < b.storage.endOffset := hi
  rw [hagree _ (by unfold headerSize at *; omega), encode_data]

theorem Stores.congr (h : Stores cfg s bid es) (htime : s'.generationTime = s.generationTime)
    (hdevice : ∀ i < cfg.bufferSize,
      s'.device (cfg.getBucketOffset bid + i) = s.device (cfg.getBucketOffset bid + i)) :
    Stores cfg s' bid es := by
  intro env
  have hbuffer : buffer cfg env s' bid = buffer cfg env s bid := by
    funext i
    unfold buffer
    split
    · exact hdevice i ‹_›
    · rfl
  have hcheck : checkBucket cfg s' (buffer cfg env s' bid)
      = checkBucket cfg s (buffer cfg env s bid) := by
    rw [hbuffer, checkBucket, checkBucket, htime]
  rw [hcheck, htime]
  exact h env

/-! ## The Bloom filter -/

section Filter

variable {key key' : UInt64}

open BloomBank (keysAfter mem_foldl_keysAfter)

/-- The state but for the bits of the Bloom filter. -/
def SameButFilter (s s' : State) : Prop := ∃ bits, s' = { s with bloomBits := bits }

/-- The array of the Bloom filter has its size. -/
def FilterSized (cfg : Config) (s : State) : Prop :=
  ∀ bf ∈ cfg.bloomFilter, s.bloomBits.length = bf.getByteSize

theorem filterSized_init (cfg : Config) (generationTime : UInt64) (device : Memory) :
    FilterSized cfg (init cfg generationTime device) := by
  intro bf hbf
  rw [init, mem_def.mp hbf, length_replicate]
  rfl

theorem bfReject_eq_false_iff : bfReject cfg s bid key = false ↔
    ∀ bf ∈ cfg.bloomFilter, bf.couldExist cfg.combineHashes s.bloomBits bid key = some true := by
  unfold bfReject
  cases cfg.bloomFilter with
  | none => simp
  | some bf => cases hexists : bf.couldExist cfg.combineHashes s.bloomBits bid key <;> simp [hexists]

theorem sameButFilter_bfCall (cfg : Config) (s : State) (ops : List BloomBank.Op) :
    SameButFilter s (bfCall cfg s ops) := by
  unfold bfCall
  split
  · exact ⟨s.bloomBits, rfl⟩
  · exact ⟨_, rfl⟩

/-- The filter that is rebuilt is the one of the bucket. -/
theorem idx_of_mem_rebuild {b : Bucket} {op : BloomBank.Op}
    (h : op ∈ .clear bid :: b.entries.map fun e => BloomBank.Op.set bid e.hashedKey.keyHash) :
    op.idx = bid := by
  rcases mem_cons.mp h with rfl | h
  · rfl
  · obtain ⟨e, -, rfl⟩ := mem_map.mp h
    rfl

variable (hreg : cfg.Regular) (hsized : FilterSized cfg s)
include hreg hsized

section

variable {ops : List BloomBank.Op} (hops : ∀ op ∈ ops, op.idx = bid') (hbid' : bid' < cfg.numBuckets)
include hops hbid'

/-- Calls of a filter keep the size of the array, and the keys that have been set since the last
clear pass. -/
theorem bfCall_spec (hbid : bid < cfg.numBuckets) (keys : List UInt64)
    (hkeys : ∀ key ∈ keys, bfReject cfg s bid key = false) :
    FilterSized cfg (bfCall cfg s ops) ∧
      ∀ key ∈ ops.foldl (keysAfter bid) keys, bfReject cfg (bfCall cfg s ops) bid key = false := by
  simp only [bfReject_eq_false_iff] at hkeys ⊢
  unfold bfCall FilterSized at *
  cases hbf : cfg.bloomFilter with
  | none => exact ⟨by simp, by simp⟩
  | some bf =>
      simp only [hbf, mem_some_iff, forall_eq'] at hsized hkeys ⊢
      rw [← (accepted_of_validate hreg.accepted).numFilters_eq bf hbf] at hbid' hbid
      have hops : ∀ op ∈ ops, op.idx < bf.numFilters.toNat := fun op hop => hops op hop ▸ hbid'
      -- the keys of the other filters do not matter here
      have hall : ∀ idx < bf.numFilters.toNat, ∀ key ∈ if idx = bid then keys else [],
          bf.couldExist cfg.combineHashes s.bloomBits idx key = some true := by
        intro idx _ key hkey
        split at hkey
        · next heq => exact heq ▸ hkeys key hkey
        · cases hkey
      obtain ⟨bits, hrun, hlength, hpass⟩ := (hreg.roomy bf hbf).exec_spec hops hsized hall
      rw [hrun]
      refine ⟨hlength, fun key hkey => hpass bid hbid key ?_⟩
      rwa [if_pos rfl]

theorem filterSized_bfCall : FilterSized cfg (bfCall cfg s ops) :=
  (bfCall_spec hreg hsized hops hbid' hbid' [] (by simp)).1

/-- Calls of another filter let a key pass that has passed before. -/
theorem bfReject_bfCall (hbid : bid < cfg.numBuckets) (hne : bid ≠ bid')
    (h : bfReject cfg s bid key = false) : bfReject cfg (bfCall cfg s ops) bid key = false :=
  (bfCall_spec hreg hsized hops hbid' hbid [key] (by simpa using h)).2 key
    (mem_foldl_keysAfter (fun hmem => hne (hops _ hmem)) (.inl (mem_singleton_self key)))

end

theorem bfReject_bfSet (hbid : bid < cfg.numBuckets)
    (h : bfReject cfg s bid key = false ∨ key = key') :
    bfReject cfg (bfSet cfg s bid key') bid key = false := by
  have hops : ∀ op ∈ [BloomBank.Op.set bid key'], op.idx = bid := by simp [BloomBank.Op.idx]
  rcases h with h | rfl
  · exact (bfCall_spec hreg hsized hops hbid hbid [key] (by simpa using h)).2 key (by simp [keysAfter])
  · exact (bfCall_spec hreg hsized hops hbid hbid [] (by simp)).2 key (by simp [keysAfter])

/-- After a rebuild the entries of the bucket pass. -/
theorem bfReject_bfRebuild (hbid : bid < cfg.numBuckets) {b : Bucket} {e : BucketEntry}
    (he : e ∈ b.entries) : bfReject cfg (bfRebuild cfg s bid b) bid e.hashedKey.keyHash = false := by
  refine (bfCall_spec hreg hsized (fun _ => idx_of_mem_rebuild) hbid hbid [] (by simp)).2 _ ?_
  rw [foldl_cons]
  exact mem_foldl_keysAfter (by simp) (.inr (mem_map_of_mem he))

end Filter

/-! ## The invariant -/

/-- A bucket that is served. `last` says which value was inserted last for a key. -/
structure BucketOk (cfg : Config) (s : State) (last : HashedKey → Option (List UInt8)) (bid : ℕ)
    (es : List BucketEntry) : Prop where
  stores : Stores cfg s bid es
  nodup : (es.map BucketEntry.hashedKey).Nodup
  home : ∀ e ∈ es, cfg.getBucketId e.hashedKey = bid
  passes : ∀ e ∈ es, bfReject cfg s bid e.hashedKey.keyHash = false
  last : ∀ e ∈ es, last e.hashedKey = some e.value

/-- The bit of the bucket is not set. -/
def Enabled (s : State) (bid : ℕ) : Prop := s.disabledBits (bid / bucketsPerBit) = false

structure Sound (cfg : Config) (s : State) (last : HashedKey → Option (List UInt8)) : Prop where
  sized : FilterSized cfg s
  bucket : ∀ bid < cfg.numBuckets, Enabled s bid → ∃ es, BucketOk cfg s last bid es

variable {last last' : HashedKey → Option (List UInt8)}

theorem isBucketValid_iff (hreg : cfg.Regular) (hbid : bid < cfg.numBuckets) :
    isBucketValid cfg env s bid = true ↔ Enabled s bid := by
  unfold isBucketValid Enabled
  dsimp only
  rw [if_pos (hreg.bit_lt hbid), Bool.not_eq_true']

theorem disableBucket_eq (hreg : cfg.Regular) (hbid : bid < cfg.numBuckets) :
    disableBucket cfg s bid
      = { s with disabledBits := update s.disabledBits (bid / bucketsPerBit) true } :=
  if_pos (hreg.bit_lt hbid)

/-- A bucket that is still served after one has been disabled is not that one. -/
theorem enabled_of_disable {bits : ℕ → Bool} {bid' : ℕ}
    (h : update bits (bid / bucketsPerBit) true (bid' / bucketsPerBit) = false) :
    bid' ≠ bid ∧ bits (bid' / bucketsPerBit) = false := by
  have hne : bid' / bucketsPerBit ≠ bid / bucketsPerBit := by
    intro heq
    rw [heq, update_self] at h
    exact absurd h (by decide)
  rw [update_of_ne hne] at h
  exact ⟨fun heq => hne (heq ▸ rfl), h⟩

theorem Sound.disable (h : Sound cfg s last) (hreg : cfg.Regular) (hbid : bid < cfg.numBuckets) :
    Sound cfg (disableBucket cfg s bid) last := by
  rw [disableBucket_eq hreg hbid]
  refine ⟨h.sized, fun bid' hbid' henabled => ?_⟩
  obtain ⟨es, hes⟩ := h.bucket bid' hbid' (enabled_of_disable henabled).2
  exact ⟨es, hes.stores.congr rfl fun _ _ => rfl, hes.nodup, hes.home, hes.passes, hes.last⟩

/-- A write to a bucket does not reach another one. -/
theorem device_write_of_ne (hreg : cfg.Regular) (hbid : bid < cfg.numBuckets)
    (hbid' : bid' < cfg.numBuckets) (hne : bid' ≠ bid) (device m : Memory) {i : ℕ}
    (hi : i < cfg.bufferSize) :
    write device (cfg.getBucketOffset bid) (read m 0 cfg.bufferSize) (cfg.getBucketOffset bid' + i)
      = device (cfg.getBucketOffset bid' + i) := by
  have hdisj := hreg.offset_disjoint hbid' hbid hne
  have hsize := hreg.bufferSize_eq
  apply write_of_outside
  rw [length_read]
  omega

theorem Sound.storeBucket (h : Sound cfg s last) (hreg : cfg.Regular) (hbid : bid < cfg.numBuckets)
    {ops : List BloomBank.Op} (hops : ∀ op ∈ ops, op.idx = bid) {s₁ : State}
    (hs₁ : s₁ = bfCall cfg s ops) {b : Bucket} (hholds : b.Holds es)
    (hcapacity : b.storage.capacity = cfg.bucketSize.toNat - headerSize)
    (htime : b.generationTime = s.generationTime) (hnodup : (es.map BucketEntry.hashedKey).Nodup)
    (hhome : ∀ e ∈ es, cfg.getBucketId e.hashedKey = bid)
    (hpasses : ∀ e ∈ es, bfReject cfg s₁ bid e.hashedKey.keyHash = false)
    (hlast : ∀ e ∈ es, last' e.hashedKey = some e.value)
    (hkeys : ∀ k, cfg.getBucketId k ≠ bid → last' k = last k) (calls : List Callback) :
    ((storeBucket cfg env s₁ bid b calls).2.1 = .ok ∧
        Sound cfg (storeBucket cfg env s₁ bid b calls).1 last' ∧
        (Enabled s bid → Enabled (storeBucket cfg env s₁ bid b calls).1 bid) ∧
        BucketOk cfg (storeBucket cfg env s₁ bid b calls).1 last' bid es) ∨
      ((storeBucket cfg env s₁ bid b calls).2.1 = .deviceError ∧
        Sound cfg (storeBucket cfg env s₁ bid b calls).1 last) := by
  have hsized : FilterSized cfg s₁ := hs₁ ▸ filterSized_bfCall hreg h.sized hops hbid
  have hothers : ∀ bid' < cfg.numBuckets, bid' ≠ bid → ∀ key, bfReject cfg s bid' key = false →
      bfReject cfg s₁ bid' key = false := fun bid' hbid' hne key hkey =>
    hs₁ ▸ bfReject_bfCall hreg h.sized hops hbid hbid' hne hkey
  obtain ⟨bits, rfl⟩ : SameButFilter s s₁ := hs₁ ▸ sameButFilter_bfCall cfg s ops
  unfold BigHash.storeBucket
  by_cases hwrite : env.writeOk = true
  · have hstores : Stores cfg (writeBucket cfg env { s with bloomBits := bits } bid b).1 bid es :=
      stores_of_write hreg hholds hcapacity htime hwrite
    left
    simp only [writeBucket, if_pos hwrite, if_true] at hstores ⊢
    refine ⟨trivial, ⟨hsized, fun bid' hbid' henabled => ?_⟩, id, hstores, hnodup, hhome, hpasses,
      hlast⟩
    by_cases heq : bid' = bid
    · subst heq
      exact ⟨es, hstores, hnodup, hhome, hpasses, hlast⟩
    · obtain ⟨es', hes'⟩ := h.bucket bid' hbid' henabled
      refine ⟨es', hes'.stores.congr rfl fun i hi => device_write_of_ne hreg hbid hbid' heq _ _ hi,
        hes'.nodup, hes'.home, fun e he => hothers bid' hbid' heq _ (hes'.passes e he), fun e he => ?_⟩
      rw [hkeys _ (hes'.home e he ▸ heq)]
      exact hes'.last e he
  · right
    simp only [writeBucket, if_neg hwrite, Bool.false_eq_true, if_false]
    have hclear : ∀ op ∈ [BloomBank.Op.clear bid], op.idx = bid := by simp [BloomBank.Op.idx]
    rw [disableBucket_eq hreg hbid, bfClear]
    generalize ht : State.mk s.generationTime _ bits _ = t
    have hsized' : FilterSized cfg t := ht ▸ hsized
    refine ⟨trivial, filterSized_bfCall hreg hsized' hclear hbid, fun bid' hbid' henabled => ?_⟩
    obtain ⟨cleared, hcleared⟩ := sameButFilter_bfCall cfg t [.clear bid]
    rw [hcleared, ← ht] at henabled
    obtain ⟨hne, henabled⟩ := enabled_of_disable henabled
    obtain ⟨es', hes'⟩ := h.bucket bid' hbid' henabled
    refine ⟨es', ?_, hes'.nodup, hes'.home, fun e he => ?_, hes'.last⟩
    · rw [hcleared, ← ht]
      exact hes'.stores.congr rfl fun i hi => device_write_of_ne hreg hbid hbid' hne _ _ hi
    · refine bfReject_bfCall hreg hsized' hclear hbid hbid' hne ?_
      rw [← ht]
      exact hothers bid' hbid' hne _ (hes'.passes e he)

/-! ## Operations -/

/-- `Bucket::remove` in a bucket whose keys differ -/
theorem exists_of_bucket_remove {b : Bucket} (h : b.Holds es)
    (hnodup : (es.map BucketEntry.hashedKey).Nodup) (hk : HashedKey) :
    ∃ b₁ removed calls es₁, b.remove hk true = (b₁, removed, calls) ∧ b₁.Holds es₁ ∧
      SameHeader b b₁ ∧ es₁.Sublist es ∧ ∀ e ∈ es₁, e.hashedKey ≠ hk := by
  by_cases hnone : ∀ e ∈ es, e.hashedKey ≠ hk
  · exact ⟨b, 0, [], es, h.remove_of_not_mem hnone true, h, ⟨rfl, rfl⟩, Sublist.refl es, hnone⟩
  · obtain ⟨e, hmem, hkey⟩ : ∃ e ∈ es, e.hashedKey = hk := by
      simpa using hnone
    obtain ⟨pre, post, rfl⟩ := append_of_mem hmem
    rw [map_append, map_cons, nodup_middle, nodup_cons, hkey, ← map_append]
      at hnodup
    have hrest : ∀ e' ∈ pre ++ post, e'.hashedKey ≠ hk := fun e' he' heq =>
      hnodup.1 (heq ▸ mem_map_of_mem he')
    obtain ⟨b₁, hremove, hholds, hsame⟩ := h.remove_of_mem
      (fun e' he' => hrest e' (mem_append_left _ he')) hkey true
    exact ⟨b₁, 1, _, pre ++ post, hremove, hholds, hsame,
      (sublist_cons_self e post).append_left pre, hrest⟩

/-- `Bucket::insert` in a bucket that is large enough for the entry -/
theorem exists_of_bucket_insert {b : Bucket} (h : b.Holds es) {hk : HashedKey} {value : List UInt8}
    (hfits : used [⟨hk, value⟩] ≤ b.storage.capacity) (checkExpired : ExpiredCheck) :
    ∃ b₁ counts calls kept, b.insert hk value checkExpired true = some (b₁, counts, calls) ∧
      b₁.Holds (kept ++ [⟨hk, value⟩]) ∧ SameHeader b b₁ ∧ kept.Sublist es := by
  obtain ⟨n, b₁, -, -, -, hinsert, hholds, hsame⟩ := h.insert hfits checkExpired true
  refine ⟨b₁, _, _, _, hinsert, hholds, hsame, (drop_sublist _ _).trans ?_⟩
  unfold unexpiredBy
  split
  · exact Sublist.refl es
  · exact filter_sublist

/-- An item that `BigHash` takes: `EnginePair` passes no others on. -/
def FitsIn (cfg : Config) (hk : HashedKey) (value : List UInt8) : Prop :=
  headerSize + used [⟨hk, value⟩] ≤ cfg.bucketSize.toNat

theorem ite_of_stored {status : Status} {P : Prop} (h : status = .ok ∧ Sound cfg s' last' ∧ P ∨
    status = .deviceError ∧ Sound cfg s' last) :
    Sound cfg s' (if status = .ok then last' else last) ∧ (status = .ok → P) := by
  rcases h with ⟨rfl, hsound, hp⟩ | ⟨rfl, hsound⟩
  · exact ⟨hsound, fun _ => hp⟩
  · exact ⟨hsound, by simp⟩

/-- **After an insert** what is served is as before but for the key, whose value is the new one. -/
theorem Sound.insert (h : Sound cfg s last) (hreg : cfg.Regular) (env : Env) {hk : HashedKey}
    {value : List UInt8} (hfits : FitsIn cfg hk value) :
    ∃ r, insert cfg env s hk value = some r ∧
      Sound cfg r.1 (if r.2.1 = .ok then update last hk (some value) else last) ∧
      (r.2.1 = .ok → Enabled r.1 (cfg.getBucketId hk) ∧ ∃ es, ⟨hk, value⟩ ∈ es ∧
        BucketOk cfg r.1 (update last hk (some value)) (cfg.getBucketId hk) es) := by
  have hbid := hreg.getBucketId_lt hk
  unfold BigHash.insert
  dsimp only
  by_cases hvalid : isBucketValid cfg env s (cfg.getBucketId hk) = true
  rotate_left
  · rw [Bool.not_eq_true] at hvalid
    rw [hvalid, if_pos (by decide)]
    exact ⟨_, rfl, h, by simp⟩
  have henabled := (isBucketValid_iff hreg hbid).mp hvalid
  obtain ⟨es, hes⟩ := h.bucket _ hbid henabled
  rw [hvalid, if_neg (by decide), readBucket]
  by_cases hread : env.readOk = true
  rotate_left
  · rw [if_neg hread]
    exact ⟨_, rfl, h.disable hreg hbid, by simp⟩
  rw [if_pos hread]
  obtain ⟨hholds, hcapacity, htime⟩ := hes.stores env
  obtain ⟨b₁, removed, calls, es₁, hremove, hholds₁, hsame₁, hsub₁, hnot⟩ :=
    exists_of_bucket_remove hholds hes.nodup hk
  have hfits₁ : used [⟨hk, value⟩] ≤ b₁.storage.capacity := by
    have hfits' : _ + _ ≤ _ := hfits
    rw [hsame₁.2, hcapacity]
    omega
  obtain ⟨b₂, ⟨evicted, expired⟩, evictCalls, kept, hinsert, hholds₂, hsame₂, hsub₂⟩ :=
    exists_of_bucket_insert hholds₁ hfits₁ env.checkExpired
  simp only [hremove, hinsert, map_some]
  refine ⟨_, rfl, ?_⟩
  have hkept : ∀ e ∈ kept, e ∈ es ∧ e.hashedKey ≠ hk := fun e he =>
    ⟨(hsub₂.trans hsub₁).subset he, hnot e (hsub₂.subset he)⟩
  -- the filter, whether it has been rebuilt or not
  obtain ⟨s₁, hs₁⟩ : ∃ s₁, s₁ = if (removed + evicted) % 2 ^ 32 = 0 then
      bfSet cfg s (cfg.getBucketId hk) hk.keyHash
    else bfRebuild cfg s (cfg.getBucketId hk) b₂ := ⟨_, rfl⟩
  obtain ⟨ops, hops, hcall⟩ :
      ∃ ops, (∀ op ∈ ops, op.idx = cfg.getBucketId hk) ∧ s₁ = bfCall cfg s ops := by
    rw [hs₁]
    split
    · exact ⟨_, by simp [BloomBank.Op.idx], rfl⟩
    · exact ⟨_, fun _ => idx_of_mem_rebuild, rfl⟩
  have hpasses : ∀ e ∈ kept ++ [⟨hk, value⟩],
      bfReject cfg s₁ (cfg.getBucketId hk) e.hashedKey.keyHash = false := by
    intro e he
    rw [hs₁]
    split
    · refine bfReject_bfSet hreg h.sized hbid ((mem_append.mp he).imp (fun hmem => ?_) fun hmem => ?_)
      · exact hes.passes e (hkept e hmem).1
      · rw [mem_singleton.mp hmem]
    · exact bfReject_bfRebuild hreg h.sized hbid (hholds₂.entries_eq.symm ▸ he)
  have hnodup : ((kept ++ [(⟨hk, value⟩ : BucketEntry)]).map BucketEntry.hashedKey).Nodup := by
    rw [map_append, map_singleton, nodup_append_comm, singleton_append,
      nodup_cons]
    refine ⟨?_, hes.nodup.sublist ((hsub₂.trans hsub₁).map _)⟩
    intro hmem
    obtain ⟨e, he, heq⟩ := mem_map.mp hmem
    exact (hkept e he).2 heq
  have hhome : ∀ e ∈ kept ++ [⟨hk, value⟩], cfg.getBucketId e.hashedKey = cfg.getBucketId hk := by
    intro e he
    rcases mem_append.mp he with hmem | hmem
    · exact hes.home e (hkept e hmem).1
    · rw [mem_singleton.mp hmem]
  have hlast : ∀ e ∈ kept ++ [⟨hk, value⟩],
      update last hk (some value) e.hashedKey = some e.value := by
    intro e he
    rcases mem_append.mp he with hmem | hmem
    · rw [update_of_ne (hkept e hmem).2]
      exact hes.last e (hkept e hmem).1
    · rw [mem_singleton.mp hmem, update_self]
  rw [← hs₁]
  obtain ⟨hsound, hstored⟩ := ite_of_stored (h.storeBucket hreg hbid hops hcall hholds₂
    ((hsame₂.2.trans hsame₁.2).trans hcapacity) ((hsame₂.1.trans hsame₁.1).trans htime) hnodup hhome
    hpasses hlast (fun k hne => update_of_ne (fun heq => hne (congrArg _ heq)) _ _) _)
  exact ⟨hsound, fun hok => ⟨(hstored hok).1 henabled, _, mem_append_right _ mem_cons_self,
    (hstored hok).2⟩⟩

/-- **After a remove** the key is not served, if the call succeeds. -/
theorem Sound.remove (h : Sound cfg s last) (hreg : cfg.Regular) (env : Env) (hk : HashedKey) :
    ∃ r, remove cfg env s hk = r ∧
      Sound cfg r.1 (if r.2.1 = .ok then update last hk none else last) := by
  have hbid := hreg.getBucketId_lt hk
  unfold BigHash.remove
  dsimp only
  by_cases hvalid : isBucketValid cfg env s (cfg.getBucketId hk) = true
  rotate_left
  · rw [Bool.not_eq_true] at hvalid
    rw [hvalid, if_pos (by decide)]
    exact ⟨_, rfl, h⟩
  obtain ⟨es, hes⟩ := h.bucket _ hbid ((isBucketValid_iff hreg hbid).mp hvalid)
  rw [hvalid, if_neg (by decide)]
  split
  · exact ⟨_, rfl, h⟩
  rw [readBucket]
  by_cases hread : env.readOk = true
  rotate_left
  · rw [if_neg hread]
    exact ⟨_, rfl, h.disable hreg hbid⟩
  rw [if_pos hread]
  obtain ⟨hholds, hcapacity, htime⟩ := hes.stores env
  obtain ⟨b₁, removed, calls, es₁, hremove, hholds₁, hsame₁, hsub₁, hnot⟩ :=
    exists_of_bucket_remove hholds hes.nodup hk
  dsimp only
  rw [hremove]
  cases removed with
  | zero => exact ⟨_, rfl, h⟩
  | succ removed =>
      refine ⟨_, rfl, ?_⟩
      have hlast : ∀ e ∈ es₁, update last hk none e.hashedKey = some e.value := by
        intro e he
        rw [update_of_ne (hnot e he)]
        exact hes.last e (hsub₁.subset he)
      exact (ite_of_stored (h.storeBucket hreg hbid (fun _ => idx_of_mem_rebuild) rfl hholds₁
        (hsame₁.2.trans hcapacity) (hsame₁.1.trans htime) (hes.nodup.sublist (hsub₁.map _))
        (fun e he => hes.home e (hsub₁.subset he))
        (fun e he => bfReject_bfRebuild hreg h.sized hbid (hholds₁.entries_eq.symm ▸ he)) hlast
        (fun k hne => update_of_ne (fun heq => hne (congrArg _ heq)) _ _) _)).1

/-- The entries of a bucket as `lookup` and `remove` see them: none once it is disabled. -/
def served (cfg : Config) (s : State) (bid : ℕ) : List BucketEntry :=
  if s.disabledBits (bid / bucketsPerBit) then []
  else (checkBucket cfg s (buffer cfg {} s bid)).entries

theorem served_of_not_enabled (h : ¬ Enabled s bid) : served cfg s bid = [] :=
  if_pos (Bool.not_eq_false _ ▸ h)

theorem BucketOk.served_eq (h : BucketOk cfg s last bid es) (henabled : Enabled s bid) :
    served cfg s bid = es := by
  have hneg : ¬ s.disabledBits (bid / bucketsPerBit) = true := by
    rw [henabled]
    decide
  rw [served, if_neg hneg]
  exact (h.stores {}).1.entries_eq

theorem Sound.nodup_served (h : Sound cfg s last) (hbid : bid < cfg.numBuckets) :
    ((served cfg s bid).map BucketEntry.hashedKey).Nodup := by
  by_cases henabled : Enabled s bid
  · obtain ⟨es, hes⟩ := h.bucket bid hbid henabled
    rw [hes.served_eq henabled]
    exact hes.nodup
  · rw [served_of_not_enabled henabled]
    exact nodup_nil

/-- The Bloom filter rejects no key that is served. -/
theorem Sound.not_served_of_reject (h : Sound cfg s last) (hreg : cfg.Regular) {hk : HashedKey}
    (hreject : bfReject cfg s (cfg.getBucketId hk) hk.keyHash = true) :
    ∀ e ∈ served cfg s (cfg.getBucketId hk), e.hashedKey ≠ hk := by
  by_cases henabled : Enabled s (cfg.getBucketId hk)
  · obtain ⟨es, hes⟩ := h.bucket _ (hreg.getBucketId_lt hk) henabled
    rw [hes.served_eq henabled]
    intro e he hkey
    have hpasses := hes.passes e he
    rw [hkey, hreject] at hpasses
    exact Bool.noConfusion hpasses
  · rw [served_of_not_enabled henabled]
    exact fun e he => absurd he not_mem_nil

/-- What a lookup says of the key, given the value that was inserted last. -/
def Answers (entries : List BucketEntry) (hk : HashedKey) (inserted : Option (List UInt8)) :
    Status × Option (List UInt8) → Prop
  | (.ok, value) => value.isSome ∧ value = inserted
  | (.notFound, _) => ∀ e ∈ entries, e.hashedKey ≠ hk
  | _ => True

theorem Sound.lookup (h : Sound cfg s last) (hreg : cfg.Regular) (env : Env) (hk : HashedKey) :
    Sound cfg (lookup cfg env s hk).1 last ∧
      Answers (served cfg s (cfg.getBucketId hk)) hk (last hk) (lookup cfg env s hk).2 := by
  have hbid := hreg.getBucketId_lt hk
  unfold BigHash.lookup
  dsimp only
  by_cases hvalid : isBucketValid cfg env s (cfg.getBucketId hk) = true
  rotate_left
  · have henabled : ¬ Enabled s (cfg.getBucketId hk) := mt (isBucketValid_iff hreg hbid).mpr hvalid
    rw [Bool.not_eq_true] at hvalid
    rw [hvalid, if_pos (by decide), served_of_not_enabled henabled]
    exact ⟨h, fun e he => absurd he not_mem_nil⟩
  have henabled := (isBucketValid_iff hreg hbid).mp hvalid
  obtain ⟨es, hes⟩ := h.bucket _ hbid henabled
  rw [hvalid, if_neg (by decide)]
  split
  · exact ⟨h, h.not_served_of_reject hreg ‹_›⟩
  rw [readBucket]
  by_cases hread : env.readOk = true
  rotate_left
  · rw [if_neg hread]
    exact ⟨h.disable hreg hbid, trivial⟩
  rw [if_pos hread]
  dsimp only
  rw [(hes.stores env).1.find_eq, hes.served_eq henabled]
  cases hfind : es.find? fun e => e.hashedKey = hk with
  | none => exact ⟨h, fun e he => by simpa using find?_eq_none.mp hfind e he⟩
  | some e =>
      have hkey : e.hashedKey = hk := by simpa using find?_some hfind
      exact ⟨h, rfl, hkey ▸ (hes.last e (mem_of_find?_eq_some hfind)).symm⟩

/-! ## Runs -/

/-- What a call does to the value that was inserted last for each key: an insert or a remove
counts if it has succeeded. -/
def record (last : HashedKey → Option (List UInt8)) (call : Call) : HashedKey → Option (List UInt8) :=
  match call.op, call.status with
  | .insert hk value, some .ok => update last hk (some value)
  | .remove hk, some .ok => update last hk none
  | _, _ => last

/-- The value of the last insert of a key that succeeded, with no successful remove after it. -/
def lastInsert (calls : List Call) : HashedKey → Option (List UInt8) :=
  calls.foldl record fun _ => none

/-- The inserts are of items that `BigHash` takes. -/
def Fits (cfg : Config) (call : Call) : Prop :=
  match call.op with
  | .insert hk value => FitsIn cfg hk value
  | _ => True

theorem perform_of_step {call : Call} (h : step cfg s call = some s') :
    perform cfg s call.env call.op = some (s', call.status) := by
  obtain ⟨⟨s₁, status⟩, hperform, hcheck⟩ := bind_eq_some_iff.mp h
  dsimp only at hcheck
  split at hcheck
  · rename_i hstatus
    rw [hperform, ← hstatus, some.inj hcheck]
  · exact absurd hcheck (by simp)

theorem Sound.step (h : Sound cfg s last) (hreg : cfg.Regular) {call : Call} (hfits : Fits cfg call)
    (hstep : step cfg s call = some s') : Sound cfg s' (record last call) := by
  have hperform := perform_of_step hstep
  obtain ⟨op, env, status⟩ := call
  unfold record
  dsimp only at hperform ⊢
  cases op with
  | insert hk value =>
      obtain ⟨⟨s₁, status, calls⟩, hr, hsound, -⟩ := h.insert hreg env hfits
      rw [perform, hr, map_some] at hperform
      obtain ⟨rfl, rfl⟩ := hperform
      cases status <;> exact hsound
  | lookup hk =>
      rw [perform] at hperform
      obtain ⟨rfl, rfl⟩ := hperform
      exact (h.lookup hreg env hk).1
  | couldExist hk =>
      rw [perform] at hperform
      obtain ⟨rfl, rfl⟩ := hperform
      exact h
  | remove hk =>
      obtain ⟨⟨s₁, status, calls⟩, hr, hsound⟩ := h.remove hreg env hk
      rw [perform, hr] at hperform
      obtain ⟨rfl, rfl⟩ := hperform
      cases status <;> exact hsound

theorem sound_of_run (hreg : cfg.Regular) {calls : List Call} {generationTime : UInt64}
    {device : Memory}
    (hfresh : ∀ bid < cfg.numBuckets, Blank cfg (init cfg generationTime device) bid)
    (hfits : ∀ call ∈ calls, Fits cfg call)
    (hrun : Transition.exec (step cfg) (init cfg generationTime device) calls = some s) :
    Sound cfg s (lastInsert calls) := by
  have hinit : Sound cfg (init cfg generationTime device) (lastInsert []) :=
    ⟨filterSized_init _ _ _, fun bid hbid _ =>
      ⟨[], stores_of_blank hreg (hfresh bid hbid), nodup_nil, fun e he => absurd he not_mem_nil,
        fun e he => absurd he not_mem_nil, fun e he => absurd he not_mem_nil⟩⟩
  have hstep : ∀ past s call t, Sound cfg s (lastInsert past) → Fits cfg call →
      step cfg s call = some t → Sound cfg t (lastInsert (past ++ [call])) := by
    intro past s call t h hcall ht
    rw [lastInsert, foldl_append]
    exact h.step hreg hcall ht
  exact Transition.exec_invariant_history hstep hrun
    (Transition.Along.of_forall fun call hmem _ => hfits call hmem) hinit

/-- What `BigHash` promises after the calls. -/
structure Serves (cfg : Config) (calls : List Call) (s : State) : Prop where
  lookup : ∀ env hk, Answers (served cfg s (cfg.getBucketId hk)) hk (lastInsert calls hk)
    (BigHash.lookup cfg env s hk).2
  couldExist : ∀ hk, BigHash.couldExist cfg s hk = false →
    ∀ e ∈ served cfg s (cfg.getBucketId hk), e.hashedKey ≠ hk
  nodup : ∀ bid < cfg.numBuckets, ((served cfg s bid).map BucketEntry.hashedKey).Nodup

/-- **What is served is what was inserted last**, after every run of calls any of whose reads and
writes may have failed, and inserts always come to an end. The configuration is a regular one, the
items fit in a bucket, and at the start there is no bucket of the present generation on the
device. -/
theorem serves_last_insert (hreg : cfg.Regular) {calls : List Call} {generationTime : UInt64}
    {device : Memory}
    (hfresh : ∀ bid < cfg.numBuckets, Blank cfg (init cfg generationTime device) bid)
    (hfits : ∀ call ∈ calls, Fits cfg call)
    (hrun : Transition.exec (step cfg) (init cfg generationTime device) calls = some s) :
    Serves cfg calls s ∧
      ∀ env hk value, FitsIn cfg hk value → ∃ r, insert cfg env s hk value = some r := by
  have hsound := sound_of_run hreg hfresh hfits hrun
  refine ⟨⟨fun env hk => (hsound.lookup hreg env hk).2, fun hk hnot => ?_, fun bid hbid =>
    hsound.nodup_served hbid⟩, fun env hk value hfit => ?_⟩
  · rw [BigHash.couldExist, Bool.not_eq_false'] at hnot
    exact hsound.not_served_of_reject hreg hnot
  · obtain ⟨r, hr, -⟩ := hsound.insert hreg env hfit
    exact ⟨r, hr⟩

/-- **What was inserted is found.** After every run of calls any of whose reads and writes may have
failed, a lookup that follows an insert of its key which returned `Ok` returns `Ok` and the value,
if the bucket can be read. The conditions are those of `serves_last_insert`. -/
theorem lookup_inserted (hreg : cfg.Regular) {calls : List Call} {generationTime : UInt64}
    {device : Memory}
    (hfresh : ∀ bid < cfg.numBuckets, Blank cfg (init cfg generationTime device) bid)
    (hcalls : ∀ call ∈ calls, Fits cfg call)
    (hrun : Transition.exec (step cfg) (init cfg generationTime device) calls = some s)
    {hk : HashedKey} {value : List UInt8} {callbacks : List Callback} (hfits : FitsIn cfg hk value)
    (hinsert : insert cfg env s hk value = some (s', .ok, callbacks)) {env' : Env}
    (hread : env'.readOk = true) : lookup cfg env' s' hk = (s', .ok, some value) := by
  obtain ⟨r, hr, -, hstored⟩ := (sound_of_run hreg hfresh hcalls hrun).insert hreg env hfits
  obtain rfl := some.inj (hr.symm.trans hinsert)
  obtain ⟨henabled, es, hmem, hes⟩ := hstored rfl
  have hvalid : isBucketValid cfg env' s' (cfg.getBucketId hk) = true :=
    (isBucketValid_iff hreg (hreg.getBucketId_lt hk)).mpr henabled
  have hpasses := hes.passes _ hmem
  -- an entry that is found has the key, and so the value that was inserted last
  obtain ⟨e, hfind⟩ : ∃ e, es.find? (fun e => e.hashedKey = hk) = some e :=
    isSome_iff_exists.mp (find?_isSome.mpr ⟨_, hmem, decide_eq_true rfl⟩)
  have hkey : e.hashedKey = hk := by simpa using find?_some hfind
  have hvalue := hes.last e (mem_of_find?_eq_some hfind)
  rw [hkey, update_self] at hvalue
  simp only [lookup, hvalid, hpasses, readBucket, if_pos hread, (hes.stores env').1.find_eq, hfind,
    Bool.not_true, Bool.false_eq_true, if_false, map_some, hvalue]

instance (cfg : Config) (s : State) (bid : ℕ) : Decidable (Blank cfg s bid) :=
  inferInstanceAs (Decidable (_ ∨ _))

instance (cfg : Config) (call : Call) : Decidable (Fits cfg call) :=
  match call with
  | ⟨.insert _ _, _, _⟩ => inferInstanceAs (Decidable (_ ≤ cfg.bucketSize.toNat))
  | ⟨.lookup _, _, _⟩ => isTrue trivial
  | ⟨.couldExist _, _, _⟩ => isTrue trivial
  | ⟨.remove _, _, _⟩ => isTrue trivial

/-! ### Small configurations -/

/-- A sum of bytes for a checksum. -/
def sumOfBytes (bytes : List UInt8) : UInt32 := UInt32.ofNat (bytes.map UInt8.toNat).sum

/-- Two buckets with room for one entry of 22 bytes each, and a Bloom filter of two hash
functions. -/
def twoBuckets : Config where
  bucketSize := 64
  cacheSize := 128
  device := some ⟨32, by decide⟩
  bloomFilter := (BloomBank.make id 2 2 4).map Prod.fst
  combineHashes := (· + ·)
  checksum := sumOfBytes

theorem regular_twoBuckets : twoBuckets.Regular where
  accepted := by decide +kernel
  header_le := by decide
  aligned := by
    intro device h
    rw [← some.inj h]
    decide
  numBuckets_lt := by decide
  roomy := by
    intro bf hbf
    have hmap : (BloomBank.make id 2 2 4).map Prod.fst = some bf := hbf
    obtain ⟨⟨_, empty⟩, hmake, rfl⟩ := map_eq_some_iff.mp hmap
    exact (BloomBank.roomy_of_make hmake ⟨by decide, by decide⟩).1

/-- A value is overwritten, and in the other bucket an entry is removed again. -/
def fiveCalls : List Call :=
  [⟨.insert ⟨[1], 0⟩ [5], {}, some .ok⟩, ⟨.insert ⟨[1], 0⟩ [6], {}, some .ok⟩,
    ⟨.insert ⟨[2], 1⟩ [7], {}, some .ok⟩, ⟨.remove ⟨[2], 1⟩, {}, some .ok⟩,
    ⟨.lookup ⟨[1], 0⟩, {}, some .ok⟩]

theorem serves_last_insert_fiveCalls :
    ∃ s, Transition.exec (step twoBuckets) (init twoBuckets 9 fun _ => 0) fiveCalls = some s ∧
      (lookup twoBuckets {} s ⟨[1], 0⟩).2 = (.ok, some [6]) ∧ Serves twoBuckets fiveCalls s := by
  obtain ⟨s, hs, hlookup⟩ :
      ∃ s, Transition.exec (step twoBuckets) (init twoBuckets 9 fun _ => 0) fiveCalls = some s ∧
        (lookup twoBuckets {} s ⟨[1], 0⟩).2 = (.ok, some [6]) := by decide +kernel
  exact ⟨s, hs, hlookup,
    (serves_last_insert regular_twoBuckets (by decide +kernel) (by decide +kernel) hs).1⟩

theorem lookup_inserted_fiveCalls :
    ∃ s s' callbacks,
      Transition.exec (step twoBuckets) (init twoBuckets 9 fun _ => 0) fiveCalls = some s ∧
      insert twoBuckets {} s ⟨[3], 0⟩ [8] = some (s', .ok, callbacks) ∧
      lookup twoBuckets {} s' ⟨[3], 0⟩ = (s', .ok, some [8]) := by
  obtain ⟨s, hs, ⟨s', _, callbacks⟩, hinsert, rfl⟩ :
      ∃ s, Transition.exec (step twoBuckets) (init twoBuckets 9 fun _ => 0) fiveCalls = some s ∧
        ∃ r, insert twoBuckets {} s ⟨[3], 0⟩ [8] = some r ∧ r.2.1 = .ok := by decide +kernel
  exact ⟨s, s', callbacks, hs, hinsert, lookup_inserted regular_twoBuckets (by decide +kernel)
    (by decide +kernel) hs (show _ ≤ _ by decide) hinsert rfl⟩

/-- One bucket of 16 bytes, which ends in the middle of its header. -/
def halfAHeader : Config where
  bucketSize := 16
  cacheSize := 16
  device := some ⟨1, Nat.one_ne_zero⟩
  bloomFilter := none
  combineHashes := (· + ·)
  checksum := sumOfBytes

/-- The other half of a header with one entry behind it, for the key `[1]` and the value `[8]`. -/
def strayEntry : Memory :=
  write (fun _ => 0) 16
    (toLE 4 1 ++ toLE 4 22 ++ toLE 4 18 ++ toLE 4 1 ++ toLE 4 1 ++ toLE 8 0 ++ [1, 8])

def oneInsert : List Call := [⟨.insert ⟨[1], 0⟩ [5], {}, some .ok⟩]

/-- `validate` accepts buckets that have no room for their header. Only the first 16 bytes of what
the insert has made get to the device; the lookup takes the rest from the memory behind its
buffer. -/
theorem halfAHeader_serves_stray_entry :
    halfAHeader.validate = .ok () ∧
      (∀ bid < halfAHeader.numBuckets, Blank halfAHeader (init halfAHeader 9 fun _ => 0) bid) ∧
      ∃ s, Transition.exec (step halfAHeader) (init halfAHeader 9 fun _ => 0) oneInsert = some s ∧
        (lookup halfAHeader { heap := strayEntry } s ⟨[1], 0⟩).2 = (.ok, some [8]) ∧
        ¬ Serves halfAHeader oneInsert s := by
  obtain ⟨s, hs, hlookup⟩ :
      ∃ s, Transition.exec (step halfAHeader) (init halfAHeader 9 fun _ => 0) oneInsert = some s ∧
        (lookup halfAHeader { heap := strayEntry } s ⟨[1], 0⟩).2 = (.ok, some [8]) := by
    decide +kernel
  refine ⟨by decide +kernel, by decide +kernel, s, hs, hlookup, fun hserves => ?_⟩
  have hanswer := hserves.lookup { heap := strayEntry } ⟨[1], 0⟩
  rw [hlookup] at hanswer
  exact absurd hanswer.2 (by decide)

end BigHash

end CacheLib.Navy
