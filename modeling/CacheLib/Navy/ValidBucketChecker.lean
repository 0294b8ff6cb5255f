/-
`ValidBucketChecker` (`cachelib/navy/bighash/BigHash.h`): which buckets of a `BigHash` can be
served. There is a bit for each group of a hundred buckets, and it is set when one of them is
disabled.

The number of buckets comes as a `uint64_t` and becomes a `uint32_t` here, and the size of the
array is computed from it in 32 bits. The configuration admits up to `2 ^ 32` buckets.
-/
import CacheLib.Lib.BitArray
import CacheLib.Navy.BigHashContents
import Mathlib.Data.List.Dedup

set_option autoImplicit false

namespace CacheLib.Navy

structure ValidBucketChecker where
  numBucketsPerBit : ℕ
  bits : List (BitVec 8)
  numDisabledBuckets : ℕ := 0

namespace ValidBucketChecker

def getBytes (numBuckets numBucketsPerBit : ℕ) : ℕ :=
  let numBits := (numBuckets + numBucketsPerBit - 1) % 2 ^ 32 / numBucketsPerBit
  (numBits + 7) % 2 ^ 32 / 8

/-- The constructor. A `uint64_t` that is passed for `numBuckets` loses its upper half. -/
def make (numBuckets numBucketsPerBit : ℕ) : ValidBucketChecker where
  numBucketsPerBit := numBucketsPerBit
  bits := List.replicate (getBytes (numBuckets % 2 ^ 32) numBucketsPerBit) 0

variable (c : ValidBucketChecker)

/-- `isBucketValid`. `none` is a read outside of the array. -/
def isBucketValid (idx : ℕ) : Option Bool :=
  let numBits := idx / c.numBucketsPerBit
  (BitArray.get c.bits (8 * (numBits / 8) + numBits % 8)).map (!·)

/-- `disableBucket`. `none` is a write outside of the array. -/
def disableBucket (idx : ℕ) : Option ValidBucketChecker :=
  let numBits := idx / c.numBucketsPerBit
  (BitArray.set c.bits (8 * (numBits / 8) + numBits % 8)).map fun bits => { c with bits }

variable {c}

/-- **A run of `disableBucket`** in which every bucket has its bit. -/
theorem disable_all {disabled : List ℕ}
    (h : ∀ idx ∈ disabled, idx / c.numBucketsPerBit / 8 < c.bits.length) :
    ∃ c', Transition.exec disableBucket c disabled = some c' ∧
      c'.numBucketsPerBit = c.numBucketsPerBit ∧
      ∀ k, BitArray.get c'.bits k
        = (BitArray.get c.bits k).map (· || disabled.any (· / c.numBucketsPerBit = k)) := by
  induction disabled generalizing c with
  | nil => exact ⟨c, rfl, rfl, fun k => by simp⟩
  | cons idx disabled ih =>
      obtain ⟨bits, hset⟩ := BitArray.exists_set (h idx List.mem_cons_self)
      have hbits := BitArray.get_of_set hset
      obtain ⟨c', hc', hper, hbits'⟩ := @ih { c with bits } fun idx' hidx' => by
        rw [(hbits 0).1]
        exact h idx' (List.mem_cons_of_mem _ hidx')
      refine ⟨c', ?_, hper, ?_⟩
      · rw [Transition.exec_cons, disableBucket, Nat.div_add_mod, hset, Option.map_some,
          Option.bind_some, hc']
      · intro k
        rw [hbits', (hbits k).2, Option.map_map]
        simp only [Function.comp_def, List.any_cons, Bool.or_assoc]

/-- The counter is never changed. -/
theorem numDisabledBuckets_of_exec {c' : ValidBucketChecker} {disabled : List ℕ}
    (hrun : Transition.exec disableBucket c disabled = some c') :
    c'.numDisabledBuckets = c.numDisabledBuckets := by
  have hstep : ∀ (s : ValidBucketChecker) idx t,
      s.numDisabledBuckets = c.numDisabledBuckets → s.disableBucket idx = some t →
      t.numDisabledBuckets = c.numDisabledBuckets := by
    intro s idx t hs ht
    obtain ⟨_, _, rfl⟩ := Option.map_eq_some_iff.mp ht
    exact hs
  exact Transition.exec_invariant hstep hrun rfl

end ValidBucketChecker

namespace BigHash

open ValidBucketChecker

variable (cfg : Config)

/-- The checker of a `BigHash` -/
def validBucketChecker : ValidBucketChecker := make cfg.numBuckets bucketsPerBit

/-- All accesses are in the array, and a bucket is invalid exactly if one of its group has been
disabled. -/
def ChecksGroups (disabled : List ℕ) : Prop :=
  ∃ c, Transition.exec (·.disableBucket) (validBucketChecker cfg) disabled = some c ∧
    ∀ idx < cfg.numBuckets, c.isBucketValid idx
      = some (!disabled.any fun d => d / bucketsPerBit = idx / bucketsPerBit)

/-- The counter has the number of groups that have been disabled. -/
def CountsGroups (disabled : List ℕ) : Prop :=
  ∃ c, Transition.exec (·.disableBucket) (validBucketChecker cfg) disabled = some c ∧
    c.numDisabledBuckets = (disabled.map (· / bucketsPerBit)).dedup.length

variable {cfg}

/-- The array is the one that `BigHash` is modelled with. -/
theorem length_bits : (validBucketChecker cfg).bits.length = checkerBytes cfg := List.length_replicate

theorem numBuckets_bounds (h : cfg.validate = .ok ()) :
    0 < cfg.numBuckets ∧ cfg.numBuckets ≤ 2 ^ 32 := by
  have hacc := accepted_of_validate h
  have hpos : 0 < cfg.bucketSize.toNat := by
    obtain ⟨k, hk⟩ := hacc.isPowerOfTwo
    rw [hk]
    exact Nat.two_pow_pos k
  refine ⟨Nat.div_pos hacc.bucketSize_le hpos, Nat.div_le_of_le_mul ?_⟩
  have hle := hacc.cacheSize_le
  rw [Nat.shiftLeft_eq] at hle
  exact hle

/-- The array has a bit for each bucket, unless the number of its bits overflows: then the array
has no bytes. -/
theorem checkerBytes_cases (h : cfg.validate = .ok ()) :
    (cfg.numBuckets + 99 < 2 ^ 32 →
      ∀ idx < cfg.numBuckets, idx / bucketsPerBit / 8 < checkerBytes cfg) ∧
    (2 ^ 32 ≤ cfg.numBuckets + 99 → checkerBytes cfg = 0) := by
  obtain ⟨hpos, hle⟩ := numBuckets_bounds h
  unfold checkerBytes bucketsPerBit
  dsimp only
  constructor
  · intro hlt idx hidx
    omega
  · intro hge
    omega

/-- **When the checker is right.** For every configuration that is accepted and all buckets that
are disabled: the accesses are in the array and the groups are told apart exactly if the number
of bits does not overflow; and the counter is right exactly if no bucket has been disabled. -/
theorem checksGroups_and_countsGroups_iff (h : cfg.validate = .ok ()) {disabled : List ℕ}
    (hdisabled : ∀ idx ∈ disabled, idx < cfg.numBuckets) :
    (ChecksGroups cfg disabled ↔ cfg.numBuckets + 99 < 2 ^ 32) ∧
      (CountsGroups cfg disabled ↔ disabled = []) := by
  obtain ⟨hpos, -⟩ := numBuckets_bounds h
  obtain ⟨hbit, hempty⟩ := checkerBytes_cases h
  constructor
  · constructor
    · rintro ⟨c, hrun, hvalid⟩
      by_contra hge
      have hnil : (validBucketChecker cfg).bits = [] :=
        List.eq_nil_of_length_eq_zero (length_bits.trans (hempty (Nat.not_lt.mp hge)))
      cases disabled with
      | nil =>
          obtain rfl := Option.some.inj hrun
          have hfirst := hvalid 0 hpos
          rw [ValidBucketChecker.isBucketValid, hnil] at hfirst
          exact nomatch hfirst
      | cons idx disabled =>
          rw [Transition.exec_cons, ValidBucketChecker.disableBucket, hnil] at hrun
          exact nomatch hrun
    · intro hlt
      obtain ⟨c, hrun, hper, hbits⟩ := @disable_all (validBucketChecker cfg) disabled fun idx hidx => by
        rw [length_bits]
        exact hbit hlt idx (hdisabled idx hidx)
      refine ⟨c, hrun, ?_⟩
      intro idx hidx
      have hper' : c.numBucketsPerBit = bucketsPerBit := hper
      have hzero : (validBucketChecker cfg).bits[idx / bucketsPerBit / 8]? = some 0 :=
        List.getElem?_replicate_of_lt (hbit hlt idx hidx)
      rw [ValidBucketChecker.isBucketValid, hper', Nat.div_add_mod, hbits, BitArray.get_of_zero hzero]
      rfl
  · constructor
    · rintro ⟨c, hrun, hcount⟩
      have hzero : c.numDisabledBuckets = 0 := numDisabledBuckets_of_exec hrun
      rw [hzero] at hcount
      have hdedup := List.eq_nil_of_length_eq_zero hcount.symm
      rw [List.dedup_eq_nil, List.map_eq_nil_iff] at hdedup
      exact hdedup
    · rintro rfl
      exact ⟨_, rfl, rfl⟩

/-- 16 TiB in buckets of 4 KiB. -/
def sixteenTebibytes : Config where
  cacheSize := 2 ^ 44
  device := some ⟨1, Nat.one_ne_zero⟩
  bloomFilter := none
  combineHashes := (· + ·)
  checksum := fun _ => 0

/-- Two hundred buckets. -/
def twoHundred : Config := { sixteenTebibytes with cacheSize := 4096 * 200 }

/-- The first group is disabled, and then the second one. -/
theorem checksGroups_and_countsGroups_iff_twoHundred :
    ChecksGroups twoHundred [7, 150] ∧ CountsGroups twoHundred [] := by
  have hvalid : twoHundred.validate = .ok () := by decide
  have hdisabled : ∀ idx ∈ [7, 150], idx < twoHundred.numBuckets := by decide
  have hnone : ∀ idx ∈ ([] : List ℕ), idx < twoHundred.numBuckets := by decide
  exact ⟨(checksGroups_and_countsGroups_iff hvalid hdisabled).1.mpr (by decide),
    (checksGroups_and_countsGroups_iff hvalid hnone).2.mpr rfl⟩

/-- With `2 ^ 32` buckets the array has no bytes, so the first look at a bucket is outside of it;
and when a bucket is disabled in a small cache it is not counted. -/
theorem outside_and_not_counted :
    sixteenTebibytes.validate = .ok () ∧ ¬ ChecksGroups sixteenTebibytes [] ∧
      twoHundred.validate = .ok () ∧ ¬ CountsGroups twoHundred [7] := by
  refine ⟨by decide, ?_, by decide, ?_⟩
  · rintro ⟨c, hrun, hvalid⟩
    obtain rfl := Option.some.inj hrun
    exact absurd (hvalid 0 (by decide)) (by decide)
  · rintro ⟨c, hrun, hcount⟩
    have hzero : c.numDisabledBuckets = 0 := numDisabledBuckets_of_exec hrun
    rw [hzero] at hcount
    exact absurd hcount (by decide)

end BigHash

end CacheLib.Navy
