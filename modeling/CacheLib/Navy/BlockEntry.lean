/-
How `BlockCache` lays an item out (`cachelib/navy/block_cache/BlockCache.h` and
`.cpp`): its configuration, the 32-bit addresses the index holds, the entry
descriptor, and the two functions that write an entry and read one back.

An entry is written from its two ends. The value starts at the front of the slot
and the descriptor ends at its back, with the key right before the descriptor;
between value and key the bytes of the slot are whatever they were. The index
holds the address of the *end* of the slot, so reading starts at the descriptor
and works backwards. An access outside the bounds of a buffer is `none` here.
-/
import CacheLib.Lib.Bytes
import CacheLib.Navy.Region

set_option autoImplicit false

namespace CacheLib.Navy.BlockCache

open Bytes

/-! ## Configuration -/

def kMinAllocAlignSize : ℕ := 512

def kMaxItemSize : ℕ := kMinAllocAlignSize * (2 ^ 16 - 1)

/-- `sizeof(EntryDesc)` -/
def descSize : ℕ := 32

/-- `calcAllocAlignSize`: what a 32-bit address has to count in to reach the whole
device, rounded up to a power of two. -/
def calcAllocAlignSize (deviceSize : ℕ) : ℕ :=
  let allocAlignSize := (deviceSize >>> 32) % 2 ^ 32
  if allocAlignSize = 0 ∨ allocAlignSize ≤ kMinAllocAlignSize then kMinAllocAlignSize
  else if allocAlignSize.isPowerOfTwo then allocAlignSize
  else allocAlignSize.nextPowerOfTwo

/-- A configuration that `Config::validate` and `BlockCache::validate` accept, with
what they check as fields: the constructor throws on any other. -/
structure Config where
  /-- `hashBuffer`, the hash of a key -/
  hashBuffer : List UInt8 → UInt64
  /-- `checksum` -/
  checksum : List UInt8 → UInt32
  deviceSize : ℕ
  cacheBaseOffset : ℕ
  cacheSize : ℕ
  regionSize : ℕ
  /-- `checksum` in the source's `Config`: whether values are checksummed -/
  checksumData : Bool
  cleanRegionsPool : ℕ
  numInMemBuffers : ℕ
  allocatorsPerPriority : List ℕ
  itemDestructorEnabled : Bool
  /-- whether a `destructorCb` is set -/
  destructorCb : Bool
  preciseRemove : Bool
  regionManagerFlushAsync : Bool
  cleanRegionFastPath : Bool
  numSparseMapBuckets : ℕ
  regionSize_le : regionSize ≤ 1024 <<< 20
  cacheSize_pos : 0 < cacheSize
  cacheSize_mod : cacheSize % regionSize = 0
  cleanRegionsPool_le : cleanRegionsPool ≤ cacheSize / regionSize % 2 ^ 32
  numInMemBuffers_ne : numInMemBuffers ≠ 0
  allocatorsPerPriority_ne : allocatorsPerPriority ≠ []
  allocators_ne : ∀ ac ∈ allocatorsPerPriority, ac ≠ 0
  isPowTwo : (calcAllocAlignSize deviceSize).isPowerOfTwo
  regionSize_mod : regionSize % calcAllocAlignSize deviceSize = 0
  cacheSize_le : cacheSize ≤ calcAllocAlignSize deviceSize <<< 32

namespace Config

variable (cfg : Config)

/-- `allocAlignSize_` -/
def allocAlignSize : ℕ := calcAllocAlignSize cfg.deviceSize

/-- `getNumRegions` -/
def numRegions : ℕ := cfg.cacheSize / cfg.regionSize % 2 ^ 32

end Config

/-- `powTwoAlign`, which masks the low bits off: its boundary is a power of two. -/
def powTwoAlign (size boundary : ℕ) : ℕ := (size + (boundary - 1)) / boundary * boundary

variable (cfg : Config)

/-- `serializedSize`. Both the sum and the aligned size are stored in a `uint32_t`. -/
def serializedSize (keySize valueSize : ℕ) : ℕ :=
  powTwoAlign ((descSize + keySize + valueSize) % 2 ^ 32) cfg.allocAlignSize % 2 ^ 32

/-! ## Addresses -/

/-- `RelAddress`: a region and an offset in it. -/
structure RelAddress where
  rid : ℕ
  offset : ℕ
  deriving DecidableEq, Repr

def toAbsolute (addr : RelAddress) : ℕ := addr.offset + addr.rid * cfg.regionSize

def toRelative (abs : ℕ) : RelAddress :=
  ⟨abs / cfg.regionSize % 2 ^ 32, abs % cfg.regionSize % 2 ^ 32⟩

def physicalOffset (addr : RelAddress) : ℕ := cfg.cacheBaseOffset + toAbsolute cfg addr

/-- `encodeRelAddress`: the address in units of the alignment, as a `uint32_t`. -/
def encodeRelAddress (addr : RelAddress) : ℕ :=
  toAbsolute cfg addr / cfg.allocAlignSize % 2 ^ 32

/-- `decodeRelAddress`. An entry may end where its region ends, so the address is
taken one byte back before it is split; on the code 0 that wraps. -/
def decodeRelAddress (code : ℕ) : RelAddress :=
  let addr := toRelative cfg ((code * cfg.allocAlignSize + (2 ^ 64 - 1)) % 2 ^ 64)
  ⟨addr.rid, (addr.offset + 1) % 2 ^ 32⟩

def encodeSizeHint (size : ℕ) : ℕ :=
  powTwoAlign size kMinAllocAlignSize / kMinAllocAlignSize % 2 ^ 16

def decodeSizeHint (sizeHint : ℕ) : ℕ := sizeHint * kMinAllocAlignSize

/-! ## The entry descriptor -/

structure EntryDesc where
  keySize : UInt32
  valueSize : UInt32
  keyHash : UInt64
  lastAccessTimeSecs : UInt32
  csSelf : UInt32
  cs : UInt32
  deriving DecidableEq, Repr

namespace EntryDesc

/-- The bytes of a descriptor before `csSelf`. -/
def head (desc : EntryDesc) : List UInt8 :=
  toLE 4 desc.keySize.toNat ++ toLE 4 desc.valueSize.toNat ++ toLE 8 desc.keyHash.toNat
    ++ toLE 4 desc.lastAccessTimeSecs.toNat

/-- The bytes of a descriptor. The last four of the 32 are padding, which nothing
writes. -/
def bytes (desc : EntryDesc) : List UInt8 :=
  desc.head ++ toLE 4 desc.csSelf.toNat ++ toLE 4 desc.cs.toNat

/-- The descriptor at address `a`. -/
def load (m : Memory) (a : ℕ) : EntryDesc where
  keySize := UInt32.ofNat (ofLE (read m a 4))
  valueSize := UInt32.ofNat (ofLE (read m (a + 4) 4))
  keyHash := UInt64.ofNat (ofLE (read m (a + 8) 8))
  lastAccessTimeSecs := UInt32.ofNat (ofLE (read m (a + 16) 4))
  csSelf := UInt32.ofNat (ofLE (read m (a + 20) 4))
  cs := UInt32.ofNat (ofLE (read m (a + 24) 4))

def computeChecksum (desc : EntryDesc) : UInt32 := cfg.checksum desc.head

/-- `EntryDesc(ks, vs, kh, accessTime)`; the checksum of the value is still 0. -/
def make (ks vs : UInt32) (kh : UInt64) (accessTime : UInt32) : EntryDesc :=
  let desc : EntryDesc := ⟨ks, vs, kh, accessTime, 0, 0⟩
  { desc with csSelf := desc.computeChecksum cfg }

/-- The bytes the entry with this descriptor takes. -/
def entrySize (desc : EntryDesc) : ℕ :=
  serializedSize cfg desc.keySize.toNat desc.valueSize.toNat

end EntryDesc

/-- The descriptor `writeEntry` leaves: `cs` is set once the rest is there. -/
def describe (key value : List UInt8) (lastAccessTimeSecs : UInt32) : EntryDesc :=
  { EntryDesc.make cfg (UInt32.ofNat key.length) (UInt32.ofNat value.length)
      (cfg.hashBuffer key) lastAccessTimeSecs with
    cs := if cfg.checksumData then cfg.checksum value else 0 }

/-- `writeEntry` into the slot of `size` bytes at `offset`. The three copies are made
in the source's order; a key or a value that does not fit the slot is written past
it. -/
def writeEntry (data : Memory) (offset size : ℕ) (key value : List UInt8)
    (lastAccessTimeSecs : UInt32) : Option Memory :=
  if descSize + key.length ≤ size ∧ value.length ≤ size then
    let dest := offset + size - descSize
    let data := write data dest (describe cfg key value lastAccessTimeSecs).bytes
    let data := write data (dest - key.length) key
    some (write data offset value)
  else none

/-! ## Reading an entry -/

inductive Status where
  | ok
  | notFound
  | rejected
  | retry
  | deviceError
  | badState
  | checksumError
  deriving DecidableEq, Repr

/-- What a lookup hands out: the value and the access time are set with `ok`. -/
structure LookupData where
  status : Status
  value : List UInt8 := []
  lastAccessTimeSecs : UInt32 := 0
  deriving DecidableEq, Repr

/-- `Buffer`: the bytes that were read. -/
structure Buffer where
  size : ℕ
  data : Memory

def Buffer.trimStart (buffer : Buffer) (amount : ℕ) : Buffer :=
  ⟨buffer.size - amount, fun i => buffer.data (amount + i)⟩

/-- The part of `readEntry` that brings the buffer to the size the descriptor gives:
too much was read, and the front is dropped, or too little, and it is read again. -/
def fitBuffer (regionRead : ℕ → ℕ → Buffer) (addrEnd : ℕ) (buffer : Buffer) (size : ℕ) :
    Option Buffer :=
  if size < buffer.size then some (buffer.trimStart (buffer.size - size))
  else if buffer.size < size then
    if addrEnd < size then none else some (regionRead (addrEnd - size) size)
  else some buffer

/-- `readEntry`, on a region opened for reading. A device that returns what was
written never gives the null buffer of `DeviceError`. -/
def readEntry (regionRead : ℕ → ℕ → Buffer) (addrEnd approxSize : ℕ)
    (expected : List UInt8) : Option LookupData :=
  let buffer := regionRead (addrEnd - min approxSize addrEnd) (min approxSize addrEnd)
  if buffer.size < descSize then none
  else
    let desc := EntryDesc.load buffer.data (buffer.size - descSize)
    if desc.csSelf ≠ desc.computeChecksum cfg then some { status := .checksumError }
    else if buffer.size < descSize + desc.keySize.toNat then none
    else
      let key := read buffer.data (buffer.size - descSize - desc.keySize.toNat)
        desc.keySize.toNat
      if ¬ (desc.keyHash = cfg.hashBuffer expected ∧ key = expected) then
        some { status := .notFound }
      else
        (fitBuffer regionRead addrEnd buffer (desc.entrySize cfg)).bind fun buffer =>
          if buffer.size < desc.valueSize.toNat then none
          else
            let value := read buffer.data 0 desc.valueSize.toNat
            if cfg.checksumData ∧ desc.cs ≠ cfg.checksum value then
              some { status := .checksumError }
            else some ⟨.ok, value, desc.lastAccessTimeSecs⟩

end CacheLib.Navy.BlockCache
