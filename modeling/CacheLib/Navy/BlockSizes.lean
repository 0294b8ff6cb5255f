/-
What the narrow integers of `BlockCache` hold, and where they are too narrow.

An address is a `uint32_t` count of alignment units. The largest cache that `validate`
lets through is one unit too large for it: the entry that ends where the cache ends has
the code 0. A size is computed in a `uint32_t` from lengths that may be larger. A size
hint is kept by the fixed-size index as a power of 1.196, and the largest power it uses
is above the 16 bits it is read back into.
-/
import CacheLib.Navy.FixedSizeIndex
import CacheLib.Navy.LatestInsert

set_option autoImplicit false

namespace CacheLib.Navy

namespace BlockCache

open Bytes
open Transition (exec)

variable {cfg : Config}

/-! ## Addresses -/

namespace InRange

variable {addr : RelAddress}

theorem toAbsolute_eq_iff (h : InRange cfg addr) :
    toAbsolute cfg addr = 2 ^ 32 * cfg.allocAlignSize ↔
      cfg.cacheSize = cfg.allocAlignSize <<< 32 ∧ addr.rid + 1 = cfg.numRegions ∧
        addr.offset = cfg.regionSize := by
  have hcache := cfg.cacheSize_le_mul
  have hregions := cfg.numRegions_mul_le
  have hrid := h.rid
  have hle := h.le
  have hmul : (addr.rid + 1) * cfg.regionSize ≤ cfg.numRegions * cfg.regionSize :=
    Nat.mul_le_mul_right _ hrid
  rw [Nat.add_mul, Nat.one_mul] at hmul
  rw [Nat.shiftLeft_eq, Nat.mul_comm cfg.allocAlignSize, toAbsolute]
  constructor
  · intro habs
    have hlast : (addr.rid + 1) * cfg.regionSize = cfg.numRegions * cfg.regionSize := by
      rw [Nat.add_mul, Nat.one_mul]
      omega
    exact ⟨by omega, Nat.eq_of_mul_eq_mul_right cfg.regionSize_pos hlast, by omega⟩
  · rintro ⟨hfull, hlast, hoffset⟩
    have hcount : cfg.numRegions * cfg.regionSize = cfg.cacheSize := by
      have hdiv := Nat.div_mul_cancel (Nat.dvd_of_mod_eq_zero cfg.cacheSize_mod)
      have hpos := cfg.allocAlignSize_pos
      have hunit := Nat.le_of_dvd cfg.regionSize_pos cfg.allocAlignSize_dvd
      -- there is a region, so their number has not wrapped to 0
      have hquot : cfg.cacheSize / cfg.regionSize ≤ 2 ^ 32 := by
        apply Nat.div_le_of_le_mul
        rw [Nat.mul_comm]
        exact hcache.trans (Nat.mul_le_mul_left _ hunit)
      have hnum : cfg.numRegions = cfg.cacheSize / cfg.regionSize := by
        unfold Config.numRegions at hlast ⊢
        rcases Nat.lt_or_eq_of_le hquot with hlt | heq
        · exact Nat.mod_eq_of_lt hlt
        · rw [heq, Nat.mod_self] at hlast
          omega
      rw [hnum, hdiv]
    rw [← hlast, Nat.add_mul, Nat.one_mul] at hcount
    omega

/-- **An address is decoded to itself and its code is not 0**, unless it is the end of a cache
that takes all the codes. -/
theorem decode_encode_iff (h : InRange cfg addr) :
    (decodeRelAddress cfg (encodeRelAddress cfg addr) = addr ∧ encodeRelAddress cfg addr ≠ 0) ↔
      ¬(cfg.cacheSize = cfg.allocAlignSize <<< 32 ∧ addr.rid + 1 = cfg.numRegions ∧
        addr.offset = cfg.regionSize) := by
  rw [← h.toAbsolute_eq_iff, ← h.encode_eq_zero_iff]
  constructor
  · exact fun hboth => hboth.2
  · exact fun hne => ⟨h.decode_encode hne, hne⟩

end InRange

/-- A cache over the whole of a device of two tebibytes, with regions of 16 mebibytes. -/
def wholeDevice : Config :=
  { small with
    deviceSize := 2 ^ 41
    cacheSize := 2 ^ 41
    regionSize := 2 ^ 24
    regionSize_le := by decide
    cacheSize_pos := by decide
    cacheSize_mod := by decide
    cleanRegionsPool_le := by decide
    isPowTwo := ⟨9, by decide⟩
    regionSize_mod := by decide
    cacheSize_le := by decide }

/-- In the last region, the end of every entry but the last one. -/
theorem decode_encode_iff_wholeDevice :
    decodeRelAddress wholeDevice (encodeRelAddress wholeDevice ⟨2 ^ 17 - 1, 2 ^ 24 - 512⟩)
        = ⟨2 ^ 17 - 1, 2 ^ 24 - 512⟩ ∧
      encodeRelAddress wholeDevice ⟨2 ^ 17 - 1, 2 ^ 24 - 512⟩ ≠ 0 :=
  (InRange.decode_encode_iff ⟨by decide, by decide, by decide, by decide⟩).mpr (by decide)

/-- The end of the cache has the code 0, which is decoded to a region there is not. -/
theorem end_of_wholeDevice_code :
    InRange wholeDevice ⟨2 ^ 17 - 1, 2 ^ 24⟩ ∧
      encodeRelAddress wholeDevice ⟨2 ^ 17 - 1, 2 ^ 24⟩ = 0 ∧
      decodeRelAddress wholeDevice 0 = ⟨2 ^ 32 - 1, 2 ^ 24⟩ :=
  ⟨⟨by decide, by decide, by decide, by decide⟩, by decide, by decide⟩

/-! ## Slots -/

/-- What the slot for an entry has to be. -/
structure SlotFits (cfg : Config) (key value : List UInt8) : Prop where
  aligned : cfg.allocAlignSize ∣ serializedSize cfg key.length value.length
  le : serializedSize cfg key.length value.length ≤ cfg.regionSize
  holds : descSize + key.length + value.length ≤ serializedSize cfg key.length value.length
  /-- `writeEntry` stays in the slot. -/
  written : ∀ data offset time, (writeEntry cfg data offset
    (serializedSize cfg key.length value.length) key value time).isSome
  /-- The header has the true lengths. -/
  keySize : ∀ time, (describe cfg key value time).keySize.toNat = key.length
  valueSize : ∀ time, (describe cfg key value time).valueSize.toNat = value.length

theorem allocate_ready_size {s s' : State} {size priority distKey : ℕ}
    {addWaiter onWorker written : Bool} {rid : RegionId} {offset : ℕ}
    (h : allocate cfg s size priority distKey addWaiter onWorker written
      = some (.ready rid offset, s')) : size ≠ 0 ∧ size ≤ cfg.regionSize := by
  by_cases hsize : size = 0 ∨ size > cfg.regionSize
  · rw [allocate, if_pos hsize] at h
    cases h
  · rw [not_or, Nat.not_lt] at hsize
    exact hsize

/-- **The slot of an accepted insert fits its entry**, unless the lengths and the descriptor together
take 2³² bytes or more. -/
theorem slotFits_iff {key value : List UInt8} {s s' : State} {onNavyThread : Bool} {rid : RegionId}
    {offset : ℕ} (hitem : serializedSize cfg key.length value.length ≤ kMaxItemSize)
    (halloc : allocate cfg s (serializedSize cfg key.length value.length) 0
      (cfg.hashBuffer key).toNat onNavyThread false false = some (.ready rid offset, s')) :
    SlotFits cfg key value ↔ descSize + key.length + value.length < 2 ^ 32 := by
  obtain ⟨hne, hle⟩ := allocate_ready_size halloc
  have hmax : kMaxItemSize < 2 ^ 32 := by decide
  constructor
  · intro hfits
    have hholds := hfits.holds
    omega
  · intro hsum
    have hlow := le_powTwoAlign (descSize + key.length + value.length) cfg.allocAlignSize_pos
    have hhigh := powTwoAlign_le (descSize + key.length + value.length) cfg.allocAlignSize
    have halign := cfg.allocAlignSize_le
    have hsize : serializedSize cfg key.length value.length
        = powTwoAlign (descSize + key.length + value.length) cfg.allocAlignSize % 2 ^ 32 := by
      rw [serializedSize, Nat.mod_eq_of_lt hsum]
    -- The rounding may reach 2³² and wrap to less than one unit; then the size is 0.
    have hexact : serializedSize cfg key.length value.length
        = powTwoAlign (descSize + key.length + value.length) cfg.allocAlignSize := by
      obtain ⟨k, hk⟩ := cfg.isPowTwo
      have hk' : cfg.allocAlignSize = 2 ^ k := hk
      have hk30 : k ≤ 30 := by
        rw [hk'] at halign
        exact (Nat.pow_le_pow_iff_right (by decide)).mp halign
      have hdvd : cfg.allocAlignSize ∣ 2 ^ 32 := hk' ▸ pow_dvd_pow 2 (by omega)
      rw [hsize]
      by_contra hwrap
      have hge : 2 ^ 32 ≤ powTwoAlign (descSize + key.length + value.length) cfg.allocAlignSize := by
        by_contra hlt
        exact hwrap (Nat.mod_eq_of_lt (by omega))
      have hmod : cfg.allocAlignSize ∣
          powTwoAlign (descSize + key.length + value.length) cfg.allocAlignSize % 2 ^ 32 :=
        (Nat.dvd_mod_iff hdvd).mpr (Nat.dvd_mul_left _ _)
      rcases Nat.eq_zero_or_pos (powTwoAlign (descSize + key.length + value.length)
        cfg.allocAlignSize % 2 ^ 32) with hzero | hpos
      · exact hne (hsize.trans hzero)
      · have hunit := Nat.le_of_dvd hpos hmod
        omega
    have hkey : key.length < 2 ^ 32 := by omega
    have hvalue : value.length < 2 ^ 32 := by omega
    constructor
    · rw [hexact]
      exact Nat.dvd_mul_left _ _
    · exact hle
    · rw [hexact]
      exact hlow
    · intro data offset time
      have hfit : descSize + key.length ≤ serializedSize cfg key.length value.length ∧
          value.length ≤ serializedSize cfg key.length value.length := by omega
      rw [writeEntry, if_pos hfit]
      rfl
    · exact fun _ => UInt32.toNat_ofNat_of_lt' hkey
    · exact fun _ => UInt32.toNat_ofNat_of_lt' hvalue

/-- The run to a small cache with a clean region. -/
def cleanRun : List Label := [put [7] [1] .retry, reclaimFirst 0 .rejected]

/-- The facts of an allocation that do not depend on the entry. -/
theorem allocate_cleanRun :
    ∃ s s', exec (BlockCache.step small) smallStart cleanRun = some s ∧
      allocate small s 512 0 (small.hashBuffer [7]).toNat true false false
        = some (.ready 0 0, s') := by
  obtain ⟨s, hrun, ⟨slot, s'⟩, halloc, rfl⟩ :
      ∃ s, exec (BlockCache.step small) smallStart cleanRun = some s ∧
        ∃ r, allocate small s 512 0 (small.hashBuffer [7]).toNat true false false = some r ∧
          r.1 = .ready 0 0 := by decide +kernel
  exact ⟨s, s', hrun, halloc⟩

theorem slotFits_iff_cleanRun :
    ∃ s s', exec (BlockCache.step small) smallStart cleanRun = some s ∧
      allocate small s (serializedSize small 1 1) 0 (small.hashBuffer [7]).toNat true false false
        = some (.ready 0 0, s') ∧ SlotFits small [7] [1] := by
  obtain ⟨s, s', hrun, halloc⟩ := allocate_cleanRun
  have hsize : serializedSize small 1 1 = 512 := by decide
  rw [← hsize] at halloc
  have hitem : serializedSize small 1 1 ≤ kMaxItemSize := by decide
  have hfits : SlotFits small [7] [1] ↔ descSize + 1 + 1 < 2 ^ 32 := slotFits_iff hitem halloc
  exact ⟨s, s', hrun, halloc, hfits.mpr (by decide)⟩

/-- A value of 2³² - 32 bytes under a key of one byte gets a slot of 512 bytes. -/
theorem huge_value_in_small_slot :
    ∃ s s', exec (BlockCache.step small) smallStart cleanRun = some s ∧
      serializedSize small 1 (2 ^ 32 - 32) = 512 ∧ 512 ≤ kMaxItemSize ∧
      allocate small s (serializedSize small 1 (2 ^ 32 - 32)) 0 (small.hashBuffer [7]).toNat
        true false false = some (.ready 0 0, s') ∧
      ¬ SlotFits small [7] (List.replicate (2 ^ 32 - 32) 0) := by
  obtain ⟨s, s', hrun, halloc⟩ := allocate_cleanRun
  have hsize : serializedSize small 1 (2 ^ 32 - 32) = 512 := by decide
  refine ⟨s, s', hrun, hsize, by decide, by rw [hsize]; exact halloc, ?_⟩
  intro hfits
  have hholds := hfits.holds
  rw [List.length_replicate, List.length_singleton, hsize] at hholds
  exact absurd hholds (by decide)

end BlockCache

/-! ## Size hints -/

namespace PackedItemRecord

/-- What the loop stops at: the first power that is not below the hint. -/
theorem sizeHintToExpLoop_spec {sizeHint : ℕ} (hsize : sizeHint < 2 ^ 16) (fuel xp : ℕ)
    (hfuel : 62 ≤ fuel + xp) (hxp : xp ≤ 62) :
    sizeHint * 1000 ^ sizeHintToExpLoop sizeHint fuel xp
        ≤ 1196 ^ sizeHintToExpLoop sizeHint fuel xp ∧
      ∀ j, xp ≤ j → j < sizeHintToExpLoop sizeHint fuel xp → 1196 ^ j < sizeHint * 1000 ^ j := by
  have hlast : sizeHint * 1000 ^ 62 ≤ 1196 ^ 62 :=
    (Nat.mul_le_mul_right (1000 ^ 62) (by omega : sizeHint ≤ 2 ^ 16 - 1)).trans (by decide)
  induction fuel generalizing xp with
  | zero =>
      obtain rfl : xp = 62 := by omega
      exact ⟨hlast, fun j hj hlt => absurd hj (by simpa [sizeHintToExpLoop] using hlt)⟩
  | succ fuel ih =>
      unfold sizeHintToExpLoop
      split
      · rename_i hless
        have hne : xp ≠ 62 := by
          rintro rfl
          omega
        obtain ⟨hstop, hbelow⟩ := ih (xp + 1) (by omega) (by omega)
        refine ⟨hstop, ?_⟩
        intro j hj hlt
        rcases Nat.eq_or_lt_of_le hj with rfl | hj
        · exact hless
        · exact hbelow j hj hlt
      · rename_i hnot
        exact ⟨Nat.le_of_not_lt hnot, fun j hj hlt => absurd hlt (Nat.not_lt.mpr hj)⟩

/-- `sizeHintToExp` as a number. -/
theorem val_sizeHintToExp (sizeHint : UInt16) :
    (sizeHintToExp sizeHint).val = sizeHintToExpLoop sizeHint.toNat 63 0 := by
  have hle := sizeHintToExpLoop_le sizeHint.toNat_lt 63 (Nat.zero_le 62)
  exact Nat.mod_eq_of_lt (by omega)

/-- Up to the 61st, the powers fit in 16 bits and grow to 55157. -/
theorem power_le : ∀ j ≤ 61, 1196 ^ j / 1000 ^ j ≤ 55157 := by decide +kernel

/-- **A hint is read back as at least itself** up to 55157, and not above. -/
theorem sizeHint_le_iff (sizeHint : UInt16) :
    sizeHint.toNat ≤ (sizeExpToHint (sizeHintToExp sizeHint)).toNat ↔ sizeHint.toNat ≤ 55157 := by
  obtain ⟨hstop, hbelow⟩ := sizeHintToExpLoop_spec sizeHint.toNat_lt 63 0 (by omega) (by omega)
  have hle := sizeHintToExpLoop_le sizeHint.toNat_lt 63 (Nat.zero_le 62)
  have hexp : (sizeExpToHint (sizeHintToExp sizeHint)).toNat
      = 1196 ^ sizeHintToExpLoop sizeHint.toNat 63 0
          / 1000 ^ sizeHintToExpLoop sizeHint.toNat 63 0 % 2 ^ 16 := by
    rw [sizeExpToHint, val_sizeHintToExp]
    rfl
  rw [hexp]
  generalize sizeHintToExpLoop sizeHint.toNat 63 0 = xp at hstop hbelow hle ⊢
  constructor
  · intro hread
    by_contra hlarge
    -- no power before the last one reaches the hint, and the last one does not fit
    have hxp : xp = 62 := by
      by_contra hne
      have hpower := power_le xp (by omega)
      have hreach := (Nat.le_div_iff_mul_le (Nat.pow_pos (by decide))).mpr hstop
      omega
    rw [hxp] at hread
    have hlast : 1196 ^ 62 / 1000 ^ 62 % 2 ^ 16 = 431 := by decide +kernel
    omega
  · intro hsmall
    have hxp : xp ≤ 61 := by
      by_contra hlarge
      have hpower := hbelow 61 (Nat.zero_le 61) (by omega)
      have hmul := Nat.mul_le_mul_right (1000 ^ 61) hsmall
      exact absurd (hpower.trans_le hmul) (by decide)
    have hpower := power_le xp hxp
    have hreach := (Nat.le_div_iff_mul_le (Nat.pow_pos (by decide))).mpr hstop
    rw [Nat.mod_eq_of_lt (by omega)]
    exact hreach

end PackedItemRecord

namespace BlockCache

open PackedItemRecord (make kCombinedEntrySizeExp sizeHint_le_iff)

theorem encodeSizeHint_mul (units : ℕ) (h : units < 2 ^ 16) :
    encodeSizeHint (kMinAllocAlignSize * units) = units := by
  have hmin : kMinAllocAlignSize = 512 := rfl
  unfold encodeSizeHint powTwoAlign
  rw [hmin]
  omega

/-- **The size read back covers the slot**, for slots of up to 55157 units of 512 bytes. The exponent
is never the one reserved for combined entries. -/
theorem sizeHint_covers_iff {size : ℕ} (address : UInt32) (hits : ℕ)
    (haligned : kMinAllocAlignSize ∣ size) (hle : size ≤ kMaxItemSize) :
    (size ≤ decodeSizeHint
        (make address (UInt16.ofNat (encodeSizeHint size)) hits).getSizeHint.toNat ∧
      (make address (UInt16.ofNat (encodeSizeHint size)) hits).sizeExp ≠ kCombinedEntrySizeExp) ↔
      size ≤ 55157 * kMinAllocAlignSize := by
  obtain ⟨units, rfl⟩ := haligned
  have hmin : kMinAllocAlignSize = 512 := rfl
  have hunits : units < 2 ^ 16 := by
    unfold kMaxItemSize at hle
    rw [hmin] at hle
    omega
  have hnat : (UInt16.ofNat units).toNat = units := UInt16.toNat_ofNat_of_lt' hunits
  have hcombined := PackedItemRecord.make_isCombinedEntry address (UInt16.ofNat units) hits
  have hread := sizeHint_le_iff (UInt16.ofNat units)
  rw [hnat] at hread
  rw [encodeSizeHint_mul units hunits, decodeSizeHint, hmin]
  change (512 * units ≤ (PackedItemRecord.sizeExpToHint
    (PackedItemRecord.sizeHintToExp (UInt16.ofNat units))).toNat * 512 ∧ _) ↔ _
  constructor
  · intro hboth
    have hsmall := hread.mp (by omega)
    omega
  · intro hsmall
    have hcover := hread.mpr (by omega)
    rw [Nat.mul_comm 512]
    exact ⟨Nat.mul_le_mul_right _ hcover, of_decide_eq_false hcombined⟩

theorem sizeHint_covers_iff_three :
    3 * 512 ≤ decodeSizeHint (make 1 (UInt16.ofNat (encodeSizeHint (3 * 512))) 0).getSizeHint.toNat ∧
      (make 1 (UInt16.ofNat (encodeSizeHint (3 * 512))) 0).sizeExp ≠ kCombinedEntrySizeExp :=
  (sizeHint_covers_iff 1 0 (by decide) (by decide)).mpr (by decide)

/-- A slot of the largest size is read back as 431 units. -/
theorem largest_slot_not_covered :
    kMinAllocAlignSize ∣ kMaxItemSize ∧
      decodeSizeHint (make 1 (UInt16.ofNat (encodeSizeHint kMaxItemSize)) 0).getSizeHint.toNat
        = 431 * 512 ∧ 431 * 512 < kMaxItemSize := by
  refine ⟨by decide, ?_, by decide⟩
  decide +kernel

end BlockCache

end CacheLib.Navy
