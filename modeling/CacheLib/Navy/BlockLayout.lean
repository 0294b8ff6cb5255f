/-
What lies in a region: entries, one right after the other.

`writeEntry` establishes an entry (`EntryAt`) and leaves what lies before the slot
alone; `readEntry` finds it if the key is the right one; and the walk that reclaim and
cleanup make visits exactly the entries of the region (`Laid`).

A cache may be as large as the 32-bit codes of addresses reach, so that the entry that
ends where the whole cache ends has the code 0. It is decoded to a region there is not.
-/
import CacheLib.Navy.BlockCache
import Mathlib.Data.Nat.Prime.Basic

set_option autoImplicit false

namespace CacheLib.Navy.BlockCache

open Bytes List Option

variable {cfg : Config}

/-! ## Sizes -/

namespace Config

variable (cfg)

theorem regionSize_pos : 0 < cfg.regionSize := by
  rcases Nat.eq_zero_or_pos cfg.regionSize with hzero | hpos
  · have hmod := cfg.cacheSize_mod
    have hpos := cfg.cacheSize_pos
    rw [hzero, Nat.mod_zero] at hmod
    omega
  · exact hpos

theorem regionSize_le_pow : cfg.regionSize ≤ 2 ^ 30 := cfg.regionSize_le

theorem allocAlignSize_dvd : cfg.allocAlignSize ∣ cfg.regionSize :=
  Nat.dvd_of_mod_eq_zero cfg.regionSize_mod

theorem allocAlignSize_pos : 0 < cfg.allocAlignSize :=
  Nat.pos_of_dvd_of_pos cfg.allocAlignSize_dvd cfg.regionSize_pos

theorem allocAlignSize_le : cfg.allocAlignSize ≤ 2 ^ 30 :=
  (Nat.le_of_dvd cfg.regionSize_pos cfg.allocAlignSize_dvd).trans cfg.regionSize_le_pow

theorem numRegions_lt : cfg.numRegions < 2 ^ 32 := Nat.mod_lt _ (by decide)

theorem cacheSize_le_mul : cfg.cacheSize ≤ 2 ^ 32 * cfg.allocAlignSize := by
  have h := cfg.cacheSize_le
  rwa [Nat.shiftLeft_eq, Nat.mul_comm] at h

theorem numRegions_mul_le : cfg.numRegions * cfg.regionSize ≤ cfg.cacheSize :=
  calc cfg.numRegions * cfg.regionSize
      ≤ cfg.cacheSize / cfg.regionSize * cfg.regionSize :=
        Nat.mul_le_mul_right _ (Nat.mod_le _ _)
    _ ≤ cfg.cacheSize := Nat.div_mul_le_self _ _

end Config

/-! ## Addresses -/

/-- An address an entry may end at. -/
structure InRange (cfg : Config) (addr : RelAddress) : Prop where
  rid : addr.rid < cfg.numRegions
  pos : 0 < addr.offset
  le : addr.offset ≤ cfg.regionSize
  aligned : cfg.allocAlignSize ∣ addr.offset

namespace InRange

variable {addr addr' : RelAddress} (h : InRange cfg addr)

include h

theorem toAbsolute_pos : 0 < toAbsolute cfg addr :=
  Nat.add_pos_left h.pos _

theorem toAbsolute_le : toAbsolute cfg addr ≤ cfg.cacheSize :=
  calc toAbsolute cfg addr
      ≤ cfg.regionSize + addr.rid * cfg.regionSize := Nat.add_le_add_right h.le _
    _ = (addr.rid + 1) * cfg.regionSize := by ring
    _ ≤ cfg.numRegions * cfg.regionSize := Nat.mul_le_mul_right _ h.rid
    _ ≤ cfg.cacheSize := cfg.numRegions_mul_le

theorem units_mul :
    toAbsolute cfg addr / cfg.allocAlignSize * cfg.allocAlignSize = toAbsolute cfg addr :=
  Nat.div_mul_cancel (Nat.dvd_add h.aligned (cfg.allocAlignSize_dvd.mul_left _))

theorem units_le : toAbsolute cfg addr / cfg.allocAlignSize ≤ 2 ^ 32 :=
  Nat.div_le_of_le_mul (by
    rw [Nat.mul_comm]
    exact h.toAbsolute_le.trans cfg.cacheSize_le_mul)

theorem units_pos : 0 < toAbsolute cfg addr / cfg.allocAlignSize := by
  have hmul := h.units_mul
  have hpos := h.toAbsolute_pos
  rcases Nat.eq_zero_or_pos (toAbsolute cfg addr / cfg.allocAlignSize) with hzero | h
  · rw [hzero, Nat.zero_mul] at hmul
    omega
  · exact h

/-- Only the very last address does not fit the code. -/
theorem encode_mul (hne : encodeRelAddress cfg addr ≠ 0) :
    encodeRelAddress cfg addr * cfg.allocAlignSize = toAbsolute cfg addr := by
  have hlt : toAbsolute cfg addr / cfg.allocAlignSize < 2 ^ 32 := by
    apply lt_of_le_of_ne h.units_le
    intro heq
    rw [encodeRelAddress, heq, Nat.mod_self] at hne
    exact hne rfl
  rw [encodeRelAddress, Nat.mod_eq_of_lt hlt, h.units_mul]

/-- **A code is decoded to its address**, unless it is 0. -/
theorem decode_encode (hne : encodeRelAddress cfg addr ≠ 0) :
    decodeRelAddress cfg (encodeRelAddress cfg addr) = addr := by
  obtain ⟨rid, offset⟩ := addr
  have hrid : rid < cfg.numRegions := h.rid
  have hpos : 0 < offset := h.pos
  have hle : offset ≤ cfg.regionSize := h.le
  have hlt := cfg.numRegions_lt
  have hsize := cfg.regionSize_le_pow
  -- One byte back the address is inside its region, and nothing wraps.
  have habs : (toAbsolute cfg ⟨rid, offset⟩ + (2 ^ 64 - 1)) % 2 ^ 64
      = (offset - 1) + rid * cfg.regionSize := by
    have hmul : rid * cfg.regionSize < 2 ^ 32 * 2 ^ 31 :=
      Nat.mul_lt_mul'' (hrid.trans hlt) (by omega)
    have heq : toAbsolute cfg ⟨rid, offset⟩ + (2 ^ 64 - 1)
        = (offset - 1) + rid * cfg.regionSize + 2 ^ 64 := by
      simp only [toAbsolute]
      omega
    rw [heq, Nat.add_mod_right, Nat.mod_eq_of_lt (by omega)]
  have hdiv : ((offset - 1) + rid * cfg.regionSize) / cfg.regionSize = rid := by
    rw [Nat.add_mul_div_right _ _ cfg.regionSize_pos, Nat.div_eq_of_lt (by omega), Nat.zero_add]
  have hmod : ((offset - 1) + rid * cfg.regionSize) % cfg.regionSize = offset - 1 := by
    rw [Nat.add_mul_mod_self_right, Nat.mod_eq_of_lt (by omega)]
  simp only [decodeRelAddress, toRelative, h.encode_mul hne, habs, hdiv, hmod]
  rw [Nat.mod_eq_of_lt (hrid.trans hlt), Nat.mod_eq_of_lt (by omega : offset - 1 < 2 ^ 32),
    Nat.mod_eq_of_lt (by omega : offset - 1 + 1 < 2 ^ 32), Nat.sub_add_cancel hpos]

theorem encode_inj (h' : InRange cfg addr')
    (hne : encodeRelAddress cfg addr ≠ 0)
    (heq : encodeRelAddress cfg addr = encodeRelAddress cfg addr') : addr = addr' := by
  rw [← h.decode_encode hne, heq, h'.decode_encode (heq ▸ hne)]

theorem encode_eq_zero_iff :
    encodeRelAddress cfg addr = 0 ↔ toAbsolute cfg addr = 2 ^ 32 * cfg.allocAlignSize := by
  have hle := h.units_le
  have hpos := h.units_pos
  have hmul := h.units_mul
  rw [encodeRelAddress]
  constructor
  · intro hzero
    have hunits : toAbsolute cfg addr / cfg.allocAlignSize = 2 ^ 32 := by omega
    rw [← hmul, hunits]
  · intro habs
    rw [habs, Nat.mul_div_cancel _ cfg.allocAlignSize_pos, Nat.mod_self]

/-- **The code 0 belongs to no region.** -/
theorem decode_zero (hzero : encodeRelAddress cfg addr = 0) :
    cfg.numRegions ≤ (decodeRelAddress cfg 0).rid := by
  have hcache : cfg.cacheSize = 2 ^ 32 * cfg.allocAlignSize := by
    apply le_antisymm cfg.cacheSize_le_mul
    rw [← h.encode_eq_zero_iff.mp hzero]
    exact h.toAbsolute_le
  -- The region size divides a power of two, and so is one; below it there are 31.
  obtain ⟨k, hk⟩ := cfg.isPowTwo
  have hdvd : cfg.regionSize ∣ 2 ^ (32 + k) := by
    have hpow : cfg.cacheSize = 2 ^ (32 + k) := by
      rw [hcache, pow_add, ← hk]
      rfl
    exact hpow ▸ Nat.dvd_of_mod_eq_zero cfg.cacheSize_mod
  obtain ⟨j, -, hj⟩ := (Nat.dvd_prime_pow Nat.prime_two).mp hdvd
  have hjlt : j < 31 := by
    apply (Nat.pow_lt_pow_iff_right (by decide : 1 < 2)).mp
    exact lt_of_le_of_lt (hj ▸ cfg.regionSize_le_pow) (by decide)
  have hlast : ∀ j < 31, (2 ^ 64 - 1) / 2 ^ j % 2 ^ 32 = 2 ^ 32 - 1 := by decide
  have hrid : (decodeRelAddress cfg 0).rid = 2 ^ 32 - 1 := by
    simp only [decodeRelAddress, toRelative, Nat.zero_mul, Nat.zero_add, hj]
    exact hlast j hjlt
  have hlt := cfg.numRegions_lt
  omega

end InRange

/-! ## The descriptor -/

namespace EntryDesc

variable {m m' : Memory} {a : ℕ}

theorem load_congr (h : ∀ i, a ≤ i → i < a + 28 → m i = m' i) : load m a = load m' a := by
  -- The padding behind the 28 bytes is not read.
  have hread : ∀ b n, a ≤ b → b + n ≤ a + 28 → read m b n = read m' b n := by
    intro b n hb hn
    apply read_congr
    intro i hbi hin
    exact h i (by omega) (by omega)
  simp only [load, hread a 4 (by omega) (by omega), hread (a + 4) 4 (by omega) (by omega),
    hread (a + 8) 8 (by omega) (by omega), hread (a + 16) 4 (by omega) (by omega),
    hread (a + 20) 4 (by omega) (by omega), hread (a + 24) 4 (by omega) (by omega)]

theorem length_bytes (desc : EntryDesc) : desc.bytes.length = 28 := by
  simp only [bytes, head, length_append, length_toLE]

/-- **A descriptor that was written is the one that is read.** -/
theorem load_write (m : Memory) (a : ℕ) (desc : EntryDesc) :
    load (write m a desc.bytes) a = desc := by
  -- Each field is a part of the bytes, at the distance the parts before it take.
  have hpart : ∀ xs ys zs : List UInt8, desc.bytes = xs ++ ys ++ zs →
      read (write m a desc.bytes) (a + xs.length) ys.length = ys := by
    intro xs ys zs hbytes
    rw [hbytes]
    exact read_write_part m a xs ys zs
  have hks := hpart [] (toLE 4 desc.keySize.toNat) _ (by simp [bytes, head]; rfl)
  have hvs := hpart (toLE 4 desc.keySize.toNat) (toLE 4 desc.valueSize.toNat) _
    (by simp [bytes, head]; rfl)
  have hkh := hpart (toLE 4 desc.keySize.toNat ++ toLE 4 desc.valueSize.toNat)
    (toLE 8 desc.keyHash.toNat) _ (by simp [bytes, head]; rfl)
  have htime := hpart (toLE 4 desc.keySize.toNat ++ toLE 4 desc.valueSize.toNat
    ++ toLE 8 desc.keyHash.toNat) (toLE 4 desc.lastAccessTimeSecs.toNat) _
    (by simp [bytes, head]; rfl)
  have hself := hpart desc.head (toLE 4 desc.csSelf.toNat) _ rfl
  have hcs := hpart (desc.head ++ toLE 4 desc.csSelf.toNat) (toLE 4 desc.cs.toNat) []
    (by simp [bytes])
  simp only [head, length_append, length_nil, length_toLE, Nat.reduceAdd,
    Nat.add_zero] at hks hvs hkh htime hself hcs
  simp only [load, hks, hvs, hkh, htime, hself, hcs, uint32_ofLE_toLE, uint64_ofLE_toLE]

theorem load_shift (m : Memory) (b a : ℕ) : load (fun i => m (b + i)) a = load m (b + a) := by
  simp only [load, read_shift, Nat.add_assoc]

end EntryDesc

/-! ## An entry in its slot -/

open EntryDesc

theorem le_powTwoAlign (size : ℕ) {boundary : ℕ} (h : 0 < boundary) :
    size ≤ powTwoAlign size boundary := by
  have hlt : size + (boundary - 1)
      < (size + (boundary - 1)) / boundary * boundary + boundary := Nat.lt_div_mul_add h
  rw [powTwoAlign]
  omega

theorem powTwoAlign_le (size boundary : ℕ) :
    powTwoAlign size boundary ≤ size + (boundary - 1) := Nat.div_mul_le_self _ _

theorem serializedSize_fits {k v : ℕ} (hk : descSize + k ≤ serializedSize cfg k v)
    (hv : v ≤ serializedSize cfg k v) (hle : serializedSize cfg k v ≤ cfg.regionSize) :
    descSize + k + v ≤ serializedSize cfg k v
      ∧ cfg.allocAlignSize ∣ serializedSize cfg k v := by
  have hregion := cfg.regionSize_le_pow
  have halign := cfg.allocAlignSize_le
  have hlow := le_powTwoAlign (descSize + k + v) cfg.allocAlignSize_pos
  have hhigh := powTwoAlign_le (descSize + k + v) cfg.allocAlignSize
  have hsize : serializedSize cfg k v = powTwoAlign (descSize + k + v) cfg.allocAlignSize := by
    rw [serializedSize, Nat.mod_eq_of_lt (by omega : descSize + k + v < 2 ^ 32)]
    exact Nat.mod_eq_of_lt (by omega)
  rw [hsize]
  exact ⟨hlow, Nat.dvd_mul_left _ _⟩

/-- What was inserted. -/
structure Entry where
  key : List UInt8
  value : List UInt8

/-- The size of the slot of an entry. -/
def Entry.size (cfg : Config) (e : Entry) : ℕ := serializedSize cfg e.key.length e.value.length

/-- The entry `e` ends at `off`. -/
structure EntryAt (cfg : Config) (m : Memory) (off : ℕ) (e : Entry) : Prop where
  fits : descSize + e.key.length + e.value.length ≤ e.size cfg
  aligned : cfg.allocAlignSize ∣ e.size cfg
  le : e.size cfg ≤ off
  keySize : (load m (off - descSize)).keySize.toNat = e.key.length
  valueSize : (load m (off - descSize)).valueSize.toNat = e.value.length
  keyHash : (load m (off - descSize)).keyHash = cfg.hashBuffer e.key
  csSelf : (load m (off - descSize)).csSelf
    = (load m (off - descSize)).computeChecksum cfg
  cs : cfg.checksumData → (load m (off - descSize)).cs = cfg.checksum e.value
  key : read m (off - descSize - e.key.length) e.key.length = e.key
  value : read m (off - e.size cfg) e.value.length = e.value

namespace EntryAt

variable {m m' : Memory} {off : ℕ} {e : Entry}

theorem pos (h : EntryAt cfg m off e) : 0 < e.size cfg := by
  have hfits := h.fits
  rw [descSize] at hfits
  omega

theorem entrySize (h : EntryAt cfg m off e) :
    (load m (off - descSize)).entrySize cfg = e.size cfg := by
  rw [EntryDesc.entrySize, h.keySize, h.valueSize, Entry.size]

/-- An entry is where it is because of the bytes of its slot. -/
theorem congr (h : EntryAt cfg m off e)
    (hm : ∀ i, off - e.size cfg ≤ i → i < off → m i = m' i) : EntryAt cfg m' off e := by
  have hfits := h.fits
  have hle := h.le
  rw [descSize] at hfits
  have hdesc : load m (off - descSize) = load m' (off - descSize) := by
    apply load_congr
    intro i hi hi'
    rw [descSize] at hi hi'
    exact hm i (by omega) (by omega)
  have hread : ∀ a n, off - e.size cfg ≤ a → a + n ≤ off → read m a n = read m' a n := by
    intro a n ha hn
    apply read_congr
    intro i hi hi'
    exact hm i (by omega) (by omega)
  exact {
    fits := h.fits
    aligned := h.aligned
    le := h.le
    keySize := hdesc ▸ h.keySize
    valueSize := hdesc ▸ h.valueSize
    keyHash := hdesc ▸ h.keyHash
    csSelf := hdesc ▸ h.csSelf
    cs := hdesc ▸ h.cs
    key := by
      rw [← hread _ _ (by rw [descSize]; omega) (by rw [descSize]; omega)]
      exact h.key
    value := by
      rw [← hread _ _ (by omega) (by omega)]
      exact h.value }

end EntryAt

/-- The entry `e` ends at `off`, as far as its descriptor and its key say; whether its value is
there is left open. -/
structure HeaderAt (cfg : Config) (m : Memory) (off : ℕ) (e : Entry) : Prop where
  fits : descSize + e.key.length + e.value.length ≤ e.size cfg
  le : e.size cfg ≤ off
  keySize : (load m (off - descSize)).keySize.toNat = e.key.length
  valueSize : (load m (off - descSize)).valueSize.toNat = e.value.length
  csSelf : (load m (off - descSize)).csSelf
    = (load m (off - descSize)).computeChecksum cfg
  key : read m (off - descSize - e.key.length) e.key.length = e.key

theorem HeaderAt.entrySize {m : Memory} {off : ℕ} {e : Entry} (h : HeaderAt cfg m off e) :
    (load m (off - descSize)).entrySize cfg = e.size cfg := by
  rw [EntryDesc.entrySize, h.keySize, h.valueSize, Entry.size]

theorem EntryAt.header {m m' : Memory} {off : ℕ} {e : Entry} (h : EntryAt cfg m off e)
    (hm : ∀ i, off - descSize - e.key.length ≤ i → i < off → m i = m' i) :
    HeaderAt cfg m' off e := by
  have hfits := h.fits
  have hle := h.le
  have hdescSize : descSize = 32 := rfl
  have hdesc : load m (off - descSize) = load m' (off - descSize) := by
    apply load_congr
    intro i hi hi'
    exact hm i (by omega) (by omega)
  have hkey : read m (off - descSize - e.key.length) e.key.length
      = read m' (off - descSize - e.key.length) e.key.length := by
    apply read_congr
    intro i hi hi'
    exact hm i (by omega) (by omega)
  exact ⟨h.fits, h.le, hdesc ▸ h.keySize, hdesc ▸ h.valueSize, hdesc ▸ h.csSelf, hkey ▸ h.key⟩

theorem load_after_writes {data : Memory} {dest offset : ℕ} {key value : List UInt8}
    (desc : EntryDesc) (hvalue : offset + value.length + key.length ≤ dest) :
    load (write (write (write data dest desc.bytes) (dest - key.length) key)
      offset value) dest = desc := by
  rw [← load_write data dest desc]
  apply load_congr
  intro i hi _
  rw [load_write, write_of_outside (by omega), write_of_outside (by omega)]

/-- **What `writeEntry` writes is an entry**, and nothing before its slot changes. -/
theorem writeEntry_spec {data data' : Memory} {offset size : ℕ} {key value : List UInt8}
    {time : UInt32} (hsize : serializedSize cfg key.length value.length = size)
    (hle : size ≤ cfg.regionSize)
    (hwrite : writeEntry cfg data offset size key value time = some data') :
    EntryAt cfg data' (offset + size) ⟨key, value⟩ ∧ ∀ i < offset, data' i = data i := by
  rw [writeEntry] at hwrite
  split at hwrite
  · next hslot =>
    rw [← hsize] at hslot hle
    obtain ⟨hfits, haligned⟩ := serializedSize_fits hslot.1 hslot.2 hle
    rw [hsize] at hslot hfits haligned hle
    have hregion := cfg.regionSize_le_pow
    rw [descSize] at hwrite hfits hslot
    have hlen := EntryDesc.length_bytes (describe cfg key value time)
    -- The three copies do not overlap: that is what the fit of both together gives.
    have hdesc : load data' (offset + size - descSize) = describe cfg key value time := by
      rw [← some.inj hwrite]
      exact load_after_writes _ (by omega)
    have hkey : read data' (offset + size - descSize - key.length) key.length = key := by
      rw [← some.inj hwrite, descSize, read_write_of_disjoint (by omega)]
      exact read_write _ _ _
    have hvalue : read data' (offset + size - size) value.length = value := by
      rw [Nat.add_sub_cancel, ← some.inj hwrite]
      exact read_write _ _ _
    have hk : (UInt32.ofNat key.length).toNat = key.length :=
      Nat.mod_eq_of_lt (by omega)
    have hv : (UInt32.ofNat value.length).toNat = value.length :=
      Nat.mod_eq_of_lt (by omega)
    subst hsize
    refine ⟨?_, ?_⟩
    · exact {
        fits := hfits
        aligned := haligned
        le := Nat.le_add_left _ _
        keySize := by rw [hdesc]; exact hk
        valueSize := by rw [hdesc]; exact hv
        keyHash := by rw [hdesc]; rfl
        csSelf := by rw [hdesc]; rfl
        cs := by
          intro hcs
          rw [hdesc]
          exact if_pos hcs
        key := hkey
        value := hvalue }
    · intro i hi
      rw [← some.inj hwrite, write_of_outside (by omega), write_of_outside (by omega),
        write_of_outside (by omega)]
  · cases hwrite

/-- Nothing outside the slot changes. -/
theorem writeEntry_of_outside {data data' : Memory} {offset size : ℕ} {key value : List UInt8}
    {time : UInt32} (hwrite : writeEntry cfg data offset size key value time = some data') {i : ℕ}
    (hi : i < offset ∨ offset + size ≤ i) : data' i = data i := by
  rw [writeEntry] at hwrite
  split at hwrite
  · next hslot =>
    have hlen := EntryDesc.length_bytes (describe cfg key value time)
    rw [descSize] at hwrite hslot
    rw [← some.inj hwrite, write_of_outside (by omega), write_of_outside (by omega),
      write_of_outside (by omega)]
  · cases hwrite

/-- A region that can be read, with these bytes in it. -/
def reader (m : Memory) (offset size : ℕ) : Buffer := ⟨size, fun i => m (offset + i)⟩

/-- However much was read at first, what is left is the slot. -/
theorem fitBuffer_eq {m : Memory} {off n size : ℕ} (hn : n ≤ off) (hsize : size ≤ off) :
    fitBuffer (reader m) off (reader m (off - n) n) size = some (reader m (off - size) size) := by
  have hreader : (reader m (off - n) n).size = n := rfl
  rw [fitBuffer]
  split
  · next hlt =>
    -- Too much: the front is dropped.
    rw [hreader] at hlt
    have hshift : ∀ i, off - n + (n - size + i) = off - size + i := by
      intro i
      omega
    rw [Buffer.trimStart, hreader, Nat.sub_sub_self hlt.le]
    simp only [reader, hshift]
  · next hlt =>
    rw [hreader] at hlt
    split
    · next hgt =>
      rw [if_neg (by omega)]
    · next hgt =>
      rw [hreader] at hgt
      obtain rfl : size = n := by omega
      rfl

/-- **What `readEntry` makes of an entry**: the value for its own key, `NotFound` for every other,
also for one with the same hash. -/
theorem readEntry_eq {m : Memory} {off : ℕ} {e : Entry} (h : EntryAt cfg m off e)
    (approxSize : ℕ) (key : List UInt8) :
    readEntry cfg (reader m) off approxSize key =
      if descSize + e.key.length ≤ approxSize then
        some (if e.key = key then
          ⟨.ok, e.value, (load m (off - descSize)).lastAccessTimeSecs⟩
          else { status := .notFound })
      else none := by
  have hle := h.le
  have hfits := h.fits
  rw [readEntry]
  set n := min approxSize off with hn
  have hnoff : n ≤ off := Nat.min_le_right _ _
  have hsize : (reader m (off - n) n).size = n := rfl
  simp only [hsize]
  split
  · rw [if_neg (by omega)]
  next hdescSize =>
  -- What is `n` bytes into the buffer is at the end of the slot in the region.
  have hat : off - n + (n - descSize) = off - descSize := by omega
  have hdesc : load (reader m (off - n) n).data (n - descSize)
      = load m (off - descSize) := by
    rw [reader, load_shift, hat]
  rw [hdesc, if_neg (not_not_intro h.csSelf), h.keySize]
  split
  · rw [if_neg (by omega)]
  next hkeySize =>
  have hcovers : descSize + e.key.length ≤ approxSize := by omega
  rw [if_pos hcovers]
  have hkeyAt : off - n + (n - descSize - e.key.length) = off - descSize - e.key.length := by
    omega
  have hkey : read (reader m (off - n) n).data (n - descSize - e.key.length) e.key.length
      = e.key := by
    rw [reader, read_shift, hkeyAt, h.key]
  rw [hkey, h.keyHash]
  -- Equal keys have equal hashes; with different keys it does not matter what the hashes
  -- are, since the keys themselves are compared too.
  by_cases heq : e.key = key
  · rw [if_neg (not_not_intro ⟨congrArg _ heq, heq⟩), h.entrySize,
      fitBuffer_eq hnoff hle, bind_some]
    have hvalue : read (reader m (off - e.size cfg) (e.size cfg)).data 0 e.value.length
        = e.value := by
      rw [reader, read_shift, Nat.add_zero, h.value]
    have hcs : ¬ (cfg.checksumData = true ∧ (load m (off - descSize)).cs
        ≠ cfg.checksum e.value) := fun hcs => hcs.2 (h.cs hcs.1)
    have hvalueSize : ¬ (reader m (off - e.size cfg) (e.size cfg)).size < e.value.length :=
      Nat.not_lt.mpr ((Nat.le_add_left _ _).trans hfits)
    rw [h.valueSize, if_neg hvalueSize, hvalue, if_neg hcs, if_pos heq]
  · rw [if_pos fun hboth => heq hboth.2, if_neg heq]

/-- What a read that stays in its bytes returns. -/
theorem readEntry_spec {m : Memory} {off approxSize : ℕ} {e : Entry} {key : List UInt8}
    {ld : LookupData} (h : EntryAt cfg m off e)
    (hread : readEntry cfg (reader m) off approxSize key = some ld) :
    (e.key = key ∧ ld.status = .ok ∧ ld.value = e.value) ∨
      (e.key ≠ key ∧ ld = { status := .notFound }) := by
  rw [readEntry_eq h] at hread
  obtain ⟨-, hread⟩ := ite_none_right_eq_some.mp hread
  rw [some.injEq] at hread
  by_cases heq : e.key = key
  · rw [if_pos heq] at hread
    rw [← hread]
    exact .inl ⟨heq, rfl, rfl⟩
  · rw [if_neg heq] at hread
    exact .inr ⟨heq, hread.symm⟩

/-! ## The entries of a region -/

/-- The entries `L`, each with the offset it ends at and the last one first, fill the
region up to `off`. -/
def Laid (cfg : Config) (m : Memory) : List (ℕ × Entry) → ℕ → Prop
  | [], off => off = 0
  | (o, e) :: L, off => o = off ∧ EntryAt cfg m off e ∧ Laid cfg m L (off - e.size cfg)

namespace Laid

variable {m m' : Memory} {L : List (ℕ × Entry)} {off o : ℕ} {e e' : Entry}

theorem congr (h : Laid cfg m L off) (hm : ∀ i < off, m i = m' i) : Laid cfg m' L off := by
  induction L generalizing off with
  | nil => exact h
  | cons x L ih =>
      obtain ⟨ho, he, hL⟩ := h
      refine ⟨ho, he.congr fun i _ hi => hm i hi, ih hL fun i hi => hm i ?_⟩
      exact lt_of_lt_of_le hi (Nat.sub_le _ _)

theorem aligned (h : Laid cfg m L off) : cfg.allocAlignSize ∣ off := by
  induction L generalizing off with
  | nil =>
      obtain rfl : off = 0 := h
      exact Nat.dvd_zero _
  | cons x L ih =>
      obtain ⟨-, he, hL⟩ := h
      rw [← Nat.sub_add_cancel he.le]
      exact Nat.dvd_add (ih hL) he.aligned

/-- An entry of the region is where the list says. -/
theorem entryAt (h : Laid cfg m L off) (hmem : (o, e) ∈ L) :
    EntryAt cfg m o e ∧ o ≤ off ∧ cfg.allocAlignSize ∣ o := by
  induction L generalizing off with
  | nil => cases hmem
  | cons x L ih =>
      have haligned := h.aligned
      obtain ⟨ho, he, hL⟩ := h
      rcases mem_cons.mp hmem with heq | hmem
      · rw [← heq] at ho he
        obtain rfl : o = off := ho
        exact ⟨he, le_rfl, haligned⟩
      · obtain ⟨h1, h2, h3⟩ := ih hL hmem
        exact ⟨h1, h2.trans (Nat.sub_le _ _), h3⟩

/-- At most one entry ends at an offset. -/
theorem unique (h : Laid cfg m L off) (hmem : (o, e) ∈ L) (hmem' : (o, e') ∈ L) : e = e' := by
  induction L generalizing off with
  | nil => cases hmem
  | cons x L ih =>
      obtain ⟨ho, he, hL⟩ := h
      -- An entry of the rest ends before the last one starts.
      have hbefore : ∀ d, (o, d) ∈ L → o ≠ x.1 := by
        intro d hd hox
        have hle := (hL.entryAt hd).2.1
        have hpos := he.pos
        have hsize := he.le
        rw [hox, ho] at hle
        omega
      rcases mem_cons.mp hmem with heq | hmem <;>
        rcases mem_cons.mp hmem' with heq' | hmem'
      · exact congrArg Prod.snd (heq.trans heq'.symm)
      · exact absurd (congrArg Prod.fst heq) (hbefore _ hmem')
      · exact absurd (congrArg Prod.fst heq') (hbefore _ hmem)
      · exact ih hL hmem hmem'

end Laid

section Walk

variable {σ : Type} {m : Memory}
  {visit : σ → ℕ → EntryDesc → List UInt8 → List UInt8 → Option σ}

/-- What a walk does at an entry: the descriptor and the value are those it finds there. -/
def visitEntry (cfg : Config) (m : Memory)
    (visit : σ → ℕ → EntryDesc → List UInt8 → List UInt8 → Option σ) (s : σ) (x : ℕ × Entry) :
    Option σ :=
  visit s x.1 (load m (x.1 - descSize)) x.2.key
    (read m (x.1 - x.2.size cfg) x.2.value.length)

theorem visitEntry_of_entryAt {o : ℕ} {e : Entry} (he : EntryAt cfg m o e) (s : σ) :
    visitEntry cfg m visit s (o, e)
      = visit s o (load m (o - descSize)) e.key e.value := by
  rw [visitEntry, he.value]

/-- The headers of the entries `L` are there, the last one first. -/
def HeadersLaid (cfg : Config) (m : Memory) : List (ℕ × Entry) → ℕ → Prop
  | [], off => off = 0
  | (o, e) :: L, off => o = off ∧ HeaderAt cfg m off e ∧ HeadersLaid cfg m L (off - e.size cfg)

theorem Laid.headers {m' : Memory} {L : List (ℕ × Entry)} {off : ℕ} (h : Laid cfg m L off)
    (hm : ∀ x ∈ L, ∀ i, x.1 - descSize - x.2.key.length ≤ i → i < x.1 → m i = m' i) :
    HeadersLaid cfg m' L off := by
  induction L generalizing off with
  | nil => exact h
  | cons x L ih =>
      obtain ⟨rfl, he, hL⟩ := h
      exact ⟨rfl, he.header (hm x mem_cons_self),
        ih hL fun y hy => hm y (mem_cons_of_mem _ hy)⟩

theorem forEachEntry_eq_foldlM {L : List (ℕ × Entry)} {fuel off : ℕ} (s : σ)
    (hlaid : HeadersLaid cfg m L off) (hfuel : off ≤ fuel) :
    forEachEntry cfg m visit fuel off s = L.foldlM (visitEntry cfg m visit) s := by
  induction L generalizing fuel off s with
  | nil =>
      obtain rfl : off = 0 := hlaid
      -- At the front of the region the walk ends, whatever fuel is left.
      cases fuel <;> exact if_pos rfl
  | cons x L ih =>
      obtain ⟨o, e⟩ := x
      obtain ⟨rfl, he, hL⟩ := hlaid
      have hle := he.le
      have hfits := he.fits
      rw [descSize] at hfits
      obtain ⟨fuel, rfl⟩ : ∃ n, fuel = n + 1 := ⟨fuel - 1, by omega⟩
      -- None of the checks stops the walk on an entry whose header is there.
      rw [forEachEntry, if_neg (by omega), if_neg (by rw [descSize]; omega),
        if_neg (not_not_intro he.csSelf), he.keySize, he.valueSize, he.entrySize,
        if_neg (by rw [descSize]; omega), he.key, foldlM_cons]
      exact bind_congr fun t _ => ih t hL (by omega)

/-- **The rule for a walk through a region.** `P` speaks of the entries still to be
visited; a visit of the first of them has to leave it true of the rest. -/
theorem forEachEntry_headers_rule {P : List (ℕ × Entry) → σ → Prop}
    (hvisit : ∀ x L s t, P (x :: L) s → visitEntry cfg m visit s x = some t → P L t)
    {L : List (ℕ × Entry)} {fuel off : ℕ} {s t : σ} (hlaid : HeadersLaid cfg m L off)
    (hfuel : off ≤ fuel) (hwalk : forEachEntry cfg m visit fuel off s = some t)
    (hs : P L s) : P [] t := by
  rw [forEachEntry_eq_foldlM s hlaid hfuel] at hwalk
  clear hlaid hfuel
  induction L generalizing s with
  | nil =>
      rw [foldlM_nil] at hwalk
      exact some.inj hwalk ▸ hs
  | cons x L ih =>
      rw [foldlM_cons] at hwalk
      obtain ⟨u, hu, hrest⟩ := bind_eq_some_iff.mp hwalk
      exact ih hrest (hvisit x L s u hs hu)

/-- The same for a region whose values are there too. -/
theorem forEachEntry_rule {P : List (ℕ × Entry) → σ → Prop}
    (hvisit : ∀ o e L s t, EntryAt cfg m o e → P ((o, e) :: L) s →
      visit s o (load m (o - descSize)) e.key e.value = some t → P L t)
    {L : List (ℕ × Entry)} {fuel off : ℕ} {s t : σ} (hlaid : Laid cfg m L off)
    (hfuel : off ≤ fuel) (hwalk : forEachEntry cfg m visit fuel off s = some t)
    (hs : P L s) : P [] t := by
  have hend := forEachEntry_headers_rule
    (P := fun rest s => (∀ x ∈ rest, EntryAt cfg m x.1 x.2) ∧ P rest s) ?_
    (hlaid.headers fun _ _ _ _ _ => rfl) hfuel hwalk
    ⟨fun x hx => (hlaid.entryAt hx).1, hs⟩
  · exact hend.2
  · rintro ⟨o, e⟩ rest u v ⟨hentries, hu⟩ huv
    have he := hentries (o, e) mem_cons_self
    rw [visitEntry_of_entryAt he] at huv
    exact ⟨fun x hx => hentries x (mem_cons_of_mem _ hx), hvisit o e rest u v he hu huv⟩

end Walk

end CacheLib.Navy.BlockCache
