/-
`BigHash`, the cache engine for small items (`cachelib/navy/bighash/BigHash.h` and
`.cpp`): a hash table on the device whose buckets are read and written as a whole.

A call reads a bucket, changes it in memory, brings the Bloom filter in line with it, and
writes it back. Any of the reads and writes may fail. A failed write may have written a
part of the bucket, or anything; the bucket is then not served any more, and neither are
the other buckets that share a bit of the `ValidBucketChecker` with it.

A buffer is as large as the device wants it, which is not always the size of a bucket,
and the code takes it for a `Bucket` whatever its size. So the memory behind a buffer is
part of the model (`Env.heap`), and so are the bits behind the array of the
`ValidBucketChecker`.
-/
import CacheLib.Common.BloomBank
import CacheLib.Navy.BlockEntry
import CacheLib.Navy.Bucket

set_option autoImplicit false

namespace CacheLib.Navy

open Bytes

namespace Bucket

/-- A buffer as a `Bucket` -/
def decode (buffer : Memory) : Bucket where
  checksum := UInt32.ofNat (ofLE (read buffer 0 4))
  generationTime := UInt64.ofNat (ofLE (read buffer 4 8))
  storage :=
    { capacity := ofLE (read buffer 12 4)
      numAllocations := ofLE (read buffer 16 4)
      endOffset := ofLE (read buffer 20 4)
      data := fun i => buffer (headerSize + i) }

/-- The fields behind the checksum. -/
def header (b : Bucket) : List UInt8 :=
  toLE 8 b.generationTime.toNat ++ toLE 4 b.storage.capacity ++ toLE 4 b.storage.numAllocations ++
    toLE 4 b.storage.endOffset

/-- A `Bucket` as a buffer -/
def encode (b : Bucket) : Memory :=
  write (fun i => b.storage.data (i - headerSize)) 0 (toLE 4 b.checksum.toNat ++ b.header)

end Bucket

namespace BigHash

open BlockCache (Status powTwoAlign)

/-! ## Configuration -/

/-- What `BigHash` uses of a `Device`. -/
structure Device where
  ioAlignmentSize : ℕ
  ioAlignmentSize_ne : ioAlignmentSize ≠ 0

structure Config where
  bucketSize : UInt32 := 4 * 1024
  cacheBaseOffset : UInt64 := 0
  cacheSize : UInt64
  device : Option Device
  bloomFilter : Option BloomBank
  combineHashes : UInt64 → UInt64 → UInt64
  /-- `navy::checksum` -/
  checksum : List UInt8 → UInt32

/-- The exceptions of `validate`, one for each `throw`. -/
inductive ConfigError
  | cacheSmallerThanBucket
  | invalidBucketSize
  | tooManyBuckets
  | notAMultiple
  | noDevice
  | filtersMismatch
  deriving DecidableEq, Repr

namespace Config

variable (cfg : Config)

def numBuckets : ℕ := cfg.cacheSize.toNat / cfg.bucketSize.toNat

def validate : Except ConfigError Unit :=
  if cfg.cacheSize.toNat < cfg.bucketSize.toNat then .error .cacheSmallerThanBucket
  else if ¬ cfg.bucketSize.toNat.isPowerOfTwo then .error .invalidBucketSize
  else if cfg.bucketSize.toNat <<< 32 < cfg.cacheSize.toNat then .error .tooManyBuckets
  else if cfg.cacheBaseOffset.toNat % cfg.bucketSize.toNat ≠ 0 ∨
      cfg.cacheSize.toNat % cfg.bucketSize.toNat ≠ 0 then .error .notAMultiple
  else if cfg.device.isNone then .error .noDevice
  else
    match cfg.bloomFilter with
    | none => .ok ()
    | some bf => if bf.numFilters.toNat ≠ cfg.numBuckets then .error .filtersMismatch else .ok ()

/-- The size of what `makeIOBuffer(bucketSize_)` makes -/
def bufferSize : ℕ :=
  match cfg.device with
  | none => cfg.bucketSize.toNat
  | some device => powTwoAlign cfg.bucketSize.toNat device.ioAlignmentSize

def getBucketId (hk : HashedKey) : ℕ := hk.keyHash.toNat % cfg.numBuckets % 2 ^ 32

def getBucketOffset (bid : ℕ) : ℕ :=
  (cfg.cacheBaseOffset.toNat + cfg.bucketSize.toNat * bid) % 2 ^ 64

end Config

/-! ## State -/

/-- What a call meets with. -/
structure Env where
  readOk : Bool := true
  writeOk : Bool := true
  /-- what a failed write leaves on the device -/
  torn : Memory := fun _ => 0
  /-- the bytes behind the buffer -/
  heap : Memory := fun _ => 0
  /-- the bits behind those of the `ValidBucketChecker` -/
  heapBits : ℕ → Bool := fun _ => false
  checkExpired : ExpiredCheck := none

structure State where
  generationTime : UInt64
  device : Memory
  /-- the bits of the Bloom filter -/
  bloomBits : BloomBank.Bits
  /-- the bits of the `ValidBucketChecker`: 1 means disabled -/
  disabledBits : ℕ → Bool := fun _ => false

/-- A new `BigHash` with a new Bloom filter, with the time at which it was made, on a device with
whatever is there -/
def init (cfg : Config) (generationTime : UInt64) (device : Memory) : State where
  generationTime := generationTime
  device := device
  bloomBits := List.replicate ((cfg.bloomFilter.map BloomBank.getByteSize).getD 0) 0

variable (cfg : Config) (env : Env) (s : State)

/-! ### `ValidBucketChecker` -/

/-- `kBigHashValidBucketCheckerBucketsPerBit` -/
def bucketsPerBit : ℕ := 100

/-- `ValidBucketChecker::getBytes`, for a number of buckets that has become a `uint32_t` -/
def checkerBytes : ℕ :=
  let numBits := (cfg.numBuckets % 2 ^ 32 + bucketsPerBit - 1) % 2 ^ 32 / bucketsPerBit
  (numBits + 7) % 2 ^ 32 / 8

def isBucketValid (bid : ℕ) : Bool :=
  let numBits := bid / bucketsPerBit
  !(if numBits / 8 < checkerBytes cfg then s.disabledBits numBits else env.heapBits numBits)

/-- `disableBucket`. Outside of the array the bit is somebody else's. -/
def disableBucket (bid : ℕ) : State :=
  let numBits := bid / bucketsPerBit
  if numBits / 8 < checkerBytes cfg then
    { s with disabledBits := Function.update s.disabledBits numBits true }
  else s

/-! ### Bloom filter -/

/-- Calls of the Bloom filter, if there is one. A call that accesses a byte outside of the array is
not followed: the results are about filters whose sizes do not overflow, in which there are none. -/
def bfCall (ops : List BloomBank.Op) : State :=
  match cfg.bloomFilter with
  | none => s
  | some bf =>
      let bits := Transition.exec (bf.step cfg.combineHashes) s.bloomBits ops
      { s with bloomBits := bits.getD s.bloomBits }

def bfSet (bid : ℕ) (keyHash : UInt64) : State := bfCall cfg s [.set bid keyHash]

def bfClear (bid : ℕ) : State := bfCall cfg s [.clear bid]

def bfReject (bid : ℕ) (keyHash : UInt64) : Bool :=
  match cfg.bloomFilter with
  | none => false
  | some bf => !(bf.couldExist cfg.combineHashes s.bloomBits bid keyHash).getD false

def bfRebuild (bid : ℕ) (bucket : Bucket) : State :=
  bfCall cfg s (.clear bid :: bucket.entries.map fun entry => .set bid entry.hashedKey.keyHash)

/-! ### The device -/

/-- The buffer after a read that has succeeded -/
def buffer (bid : ℕ) : Memory := fun i =>
  if i < cfg.bufferSize then s.device (cfg.getBucketOffset bid + i) else env.heap i

def computeChecksum (buffer : Memory) : UInt32 :=
  cfg.checksum (read buffer 4 (cfg.bufferSize - 4))

/-- The bucket in a buffer, or a new one if this is not a bucket of the present generation -/
def checkBucket (buffer : Memory) : Bucket :=
  let bucket := Bucket.decode buffer
  if s.generationTime ≠ bucket.generationTime ∨ computeChecksum cfg buffer ≠ bucket.checksum then
    Bucket.initNew cfg.bufferSize bucket.storage.data s.generationTime
  else bucket

/-- `readBucket`, without a bucket if the read has failed -/
def readBucket (bid : ℕ) : State × Option Bucket :=
  if env.readOk then (s, some (checkBucket cfg s (buffer cfg env s bid)))
  else (disableBucket cfg s bid, none)

def writeBucket (bid : ℕ) (bucket : Bucket) : State × Bool :=
  let bucket := { bucket with checksum := computeChecksum cfg bucket.encode }
  let offset := cfg.getBucketOffset bid
  if env.writeOk then
    ({ s with device := write s.device offset (read bucket.encode 0 cfg.bufferSize) }, true)
  else
    (disableBucket cfg
      { s with device := write s.device offset (read env.torn 0 cfg.bufferSize) } bid, false)

/-! ## Operations -/

/-- The end of `insert` and `remove`: the bucket is written back, and the callback is called if this
has succeeded. -/
def storeBucket (bid : ℕ) (bucket : Bucket) (calls : List Bucket.Callback) :
    State × Status × List Bucket.Callback :=
  let (s, res) := writeBucket cfg env s bid bucket
  if res then (s, .ok, calls) else (bfClear cfg s bid, .deviceError, [])

/-- `insert`: the state, the status and the calls of the destructor callback. There is no result
when `Bucket::insert` has none. -/
def insert (hk : HashedKey) (value : List UInt8) :
    Option (State × Status × List Bucket.Callback) :=
  let bid := cfg.getBucketId hk
  if !isBucketValid cfg env s bid then some (s, .rejected, [])
  else
    match readBucket cfg env s bid with
    | (s, none) => some (s, .deviceError, [])
    | (s, some bucket) =>
        let (bucket, removed, calls) := bucket.remove hk true
        (bucket.insert hk value env.checkExpired true).map fun (bucket, (evicted, _), evictCalls) =>
          let s :=
            if (removed + evicted) % 2 ^ 32 = 0 then bfSet cfg s bid hk.keyHash
            else bfRebuild cfg s bid bucket
          storeBucket cfg env s bid bucket (calls ++ evictCalls)

def couldExist (hk : HashedKey) : Bool := !bfReject cfg s (cfg.getBucketId hk) hk.keyHash

/-- `lookup`: the state, the status, and the value with `Ok` -/
def lookup (hk : HashedKey) : State × Status × Option (List UInt8) :=
  let bid := cfg.getBucketId hk
  if !isBucketValid cfg env s bid then (s, .notFound, none)
  else if bfReject cfg s bid hk.keyHash then (s, .notFound, none)
  else
    match readBucket cfg env s bid with
    | (s, none) => (s, .deviceError, none)
    | (s, some bucket) =>
        match bucket.find hk with
        | none => (s, .notFound, none)
        | some value => (s, .ok, some value)

/-- `remove`: the state, the status and the calls of the destructor callback -/
def remove (hk : HashedKey) : State × Status × List Bucket.Callback :=
  let bid := cfg.getBucketId hk
  if !isBucketValid cfg env s bid then (s, .notFound, [])
  else if bfReject cfg s bid hk.keyHash then (s, .notFound, [])
  else
    match readBucket cfg env s bid with
    | (s, none) => (s, .deviceError, [])
    | (s, some bucket) =>
        match bucket.remove hk true with
        | (_, 0, _) => (s, .notFound, [])
        | (bucket, _, calls) => storeBucket cfg env (bfRebuild cfg s bid bucket) bid bucket calls

/-! ## Runs -/

inductive Op
  | insert (hk : HashedKey) (value : List UInt8)
  | lookup (hk : HashedKey)
  | couldExist (hk : HashedKey)
  | remove (hk : HashedKey)
  deriving DecidableEq, Repr

/-- A call, what it meets with, and the status it returns; `couldExist` has none. -/
structure Call where
  op : Op
  env : Env := {}
  status : Option Status

def perform (s : State) (env : Env) : Op → Option (State × Option Status)
  | .insert hk value => (insert cfg env s hk value).map fun (s, status, _) => (s, some status)
  | .lookup hk =>
      let (s, status, _) := lookup cfg env s hk
      some (s, some status)
  | .couldExist _ => some (s, none)
  | .remove hk =>
      let (s, status, _) := remove cfg env s hk
      some (s, some status)

def step (s : State) (call : Call) : Option State :=
  (perform cfg s call.env call.op).bind fun (s, status) =>
    if status = call.status then some s else none

end BigHash

end CacheLib.Navy
