/-
The records on the device: `DeviceMetaDataWriter` and `DeviceMetaDataReader`.

The writer fills a block and writes it out when the next header does not fit into what is left of
it, so that a header is never cut, while the data of a record go on in the next block. The reader
follows: both are at one position of the device, and where the next record starts is a function of
the position alone (`Config.start`). Whatever is in the buffer has a place on the device too, and
the device with the buffer in that place (`Writer.image`) is what the invariant of the writer is
about.

The destructor writes the last block if there is more than one block left of the reserved space, and
a block of zeros behind it. Without that room the last block is dropped, although `writeRecord` has
returned. Records without a byte are not written at all.
-/
import CacheLib.Lib.Bytes
import Mathlib.Algebra.Order.Group.Nat
import Mathlib.Data.Int.Bitwise

set_option autoImplicit false

namespace CacheLib.Navy.RecordIO

open Bytes List

/-! ## The code -/

/-- `folly::recordio_helpers`: a header of fixed size in front of the data, that has their length,
and a check for each of the two. Both accept what `prependHeader` has made. -/
structure RecordFormat where
  headerSize : ℕ
  /-- What `prependHeader` puts before the data -/
  header : UInt32 → List UInt8 → List UInt8
  validateRecordHeader : List UInt8 → UInt32 → Bool
  /-- `Header::dataLength` -/
  dataLength : List UInt8 → UInt32
  /-- `fileId` of the result, 0 if the data are not valid -/
  validateRecordData : List UInt8 → UInt32
  headerSize_pos : 0 < headerSize
  headerSize_le : headerSize ≤ 4096
  length_header : ∀ fileId data, (header fileId data).length = headerSize
  validateRecordHeader_header : ∀ fileId data rest, data ≠ [] → data.length < 2 ^ 32 →
    validateRecordHeader (header fileId data ++ rest) fileId = true
  dataLength_header : ∀ fileId data rest, data ≠ [] → data.length < 2 ^ 32 →
    (dataLength (header fileId data ++ rest)).toNat = data.length
  validateRecordData_header : ∀ fileId data, data ≠ [] → data.length < 2 ^ 32 →
    validateRecordData (header fileId data ++ data) = fileId

/-- The space is on the device, whose offsets are `off_t`. The alignment of the device is a power of
two, as `powTwoAlign` asks for, and a `uint32_t`. -/
structure Config where
  format : RecordFormat
  ioAlignmentSize : ℕ
  metadataSize : ℕ
  isPowTwo : ∃ k ≤ 31, ioAlignmentSize = 2 ^ k
  metadataSize_lt : metadataSize < 2 ^ 63

def kMetadataHeaderFileId : UInt32 := 1

def kBlockSizeDefault : ℕ := 4096

variable (cfg : Config)

def Config.blockSize : ℕ := max cfg.ioAlignmentSize kBlockSizeDefault

def Config.headerSize : ℕ := cfg.format.headerSize

inductive Error where
  /-- `prependHeader`: the length must fit in 32 bits -/
  | recordTooLong
  | exceedingMetadataLimit
  | invalidRecordHeader
  | invalidRecord (offset length : ℕ)
  /-- `memcpy` outside of the record, the offset in it being an `int` -/
  | outOfBounds
  /-- Not an error of the code: the loop has not ended -/
  | unfinished
  deriving DecidableEq

/-- A value assigned to an `int` -/
def toInt (n : ℤ) : ℤ := n.bmod (2 ^ 32)

structure Writer where
  dev : Memory
  offset : ℕ
  bufIndex : ℕ
  buffer : Memory

def Writer.new (dev : Memory) : Writer :=
  { dev := dev, offset := 0, bufIndex := 0, buffer := fun _ => 0 }

/-- The lambda in `writeRecord`. The device stores what is written. -/
def Writer.flushBuffer (w : Writer) : Writer :=
  let extraBytes := cfg.blockSize - w.bufIndex
  let buffer := write w.buffer w.bufIndex (replicate extraBytes 0)
  { dev := copy w.dev w.offset buffer cfg.blockSize
    offset := w.offset + cfg.blockSize
    bufIndex := 0
    buffer := buffer }

/-- "flush current buffer if it has no room for header" -/
def Writer.makeRoom (w : Writer) : Writer :=
  if cfg.blockSize < w.bufIndex + cfg.headerSize then w.flushBuffer cfg else w

/-- A round of the loop in `writeRecord`, with `dataOffset` and `size`; an exception comes with the
writer it leaves. -/
def Writer.copyIn (data : List UInt8) (w : Writer) (dataOffset : ℤ) (size : ℕ) :
    Except (Error × Writer) (Writer × ℤ × ℕ) :=
  let w := w.makeRoom cfg
  if cfg.metadataSize < w.offset + w.bufIndex + size then
    .error (.exceedingMetadataLimit, if w.bufIndex ≠ 0 then w.flushBuffer cfg else w)
  else
    let cpBytes := min (cfg.blockSize - w.bufIndex) size
    if 0 ≤ dataOffset ∧ dataOffset.toNat + cpBytes ≤ data.length then
      .ok ({ w with
              buffer := write w.buffer w.bufIndex ((data.drop dataOffset.toNat).take cpBytes)
              bufIndex := w.bufIndex + cpBytes },
        toInt (dataOffset + cpBytes), size - cpBytes)
    else .error (.outOfBounds, w)

/-- `do { … } while (size > 0)`, for at most so many rounds. `writeRecord` has one for each byte,
and every round copies one at least. -/
def Writer.copyAll (cfg : Config) (data : List UInt8) :
    ℕ → Writer → ℤ → ℕ → Except (Error × Writer) Writer
  | 0, w, _, _ => .error (.unfinished, w)
  | n + 1, w, dataOffset, size =>
      match w.copyIn cfg data dataOffset size with
      | .error e => .error e
      | .ok (w, dataOffset, size) =>
          if 0 < size then w.copyAll cfg data n dataOffset size else .ok w

def Writer.writeRecord (w : Writer) (buf : List UInt8) :
    Except (Error × Writer) Writer :=
  -- `prependHeader` returns 0 for a buffer without data, and throws if the length does not fit.
  if buf.length = 0 then .ok w
  else if 2 ^ 32 ≤ buf.length then .error (.recordTooLong, w)
  else
    let data := cfg.format.header kMetadataHeaderFileId buf ++ buf
    w.copyAll cfg data data.length 0 data.length

/-- A call for each of the records -/
def Writer.writeRecords (cfg : Config) : Writer → List (List UInt8) → Except (Error × Writer) Writer
  | w, [] => .ok w
  | w, buf :: bufs =>
      match w.writeRecord cfg buf with
      | .error e => .error e
      | .ok w => w.writeRecords cfg bufs

/-- The first half of the destructor: "Write the last remaining bytes to the device" -/
def Writer.writeLast (w : Writer) : Writer :=
  if 0 < w.bufIndex ∧ w.offset + cfg.blockSize < cfg.metadataSize then
    let buffer := write (copy (fun _ => 0) 0 w.buffer w.bufIndex) w.bufIndex
      (replicate (cfg.blockSize - w.bufIndex) 0)
    { w with dev := copy w.dev w.offset buffer cfg.blockSize, offset := w.offset + cfg.blockSize }
  else w

/-- The destructor: the device it leaves -/
def Writer.destroy (w : Writer) : Memory :=
  let w := w.writeLast cfg
  if w.offset + cfg.blockSize ≤ cfg.metadataSize then copy w.dev w.offset (fun _ => 0) cfg.blockSize
  else w.dev

structure Reader where
  dev : Memory
  offset : ℕ
  bufIndex : ℕ
  buffer : Memory

def Reader.new (dev : Memory) : Reader :=
  { dev := dev, offset := 0, bufIndex := cfg.blockSize, buffer := fun _ => 0 }

/-- The next block, if "we have to read a header and there are not enough bytes in the buffer OR we
have to read the next block in the multi-block read" -/
def Reader.nextBlock (r : Reader) : Except Error Reader :=
  if cfg.blockSize < r.bufIndex + cfg.headerSize then
    if cfg.metadataSize < r.offset + cfg.blockSize then .error .exceedingMetadataLimit
    else .ok { r with
      buffer := copy r.buffer 0 (fun i => r.dev (r.offset + i)) cfg.blockSize
      offset := r.offset + cfg.blockSize
      bufIndex := 0 }
  else .ok r

/-- The locals of `readRecord` once the header has been parsed -/
structure Output where
  buf : Memory
  length : ℕ
  size : ℕ
  dataOffset : ℤ

def Reader.parseHeader (r : Reader) : Except Error Output :=
  let range := read r.buffer r.bufIndex (cfg.blockSize - r.bufIndex)
  if cfg.format.validateRecordHeader range kMetadataHeaderFileId then
    let size := cfg.headerSize + (cfg.format.dataLength range).toNat
    .ok { buf := fun _ => 0, length := size, size := size, dataOffset := 0 }
  else .error .invalidRecordHeader

def Reader.copyOut (r : Reader) (o : Output) : Except Error (Reader × Output) :=
  let cpSize := min (cfg.blockSize - r.bufIndex) o.size
  if 0 ≤ o.dataOffset ∧ o.dataOffset.toNat + cpSize ≤ o.length then
    .ok ({ r with bufIndex := r.bufIndex + cpSize },
      { o with
        buf := copy o.buf o.dataOffset.toNat (fun i => r.buffer (r.bufIndex + i)) cpSize
        dataOffset := toInt (o.dataOffset + cpSize)
        size := o.size - cpSize })
  else .error .outOfBounds

/-- The rounds after the first one: `while (size > 0)`, for at most so many rounds -/
def Reader.copyRest (cfg : Config) : ℕ → Reader → Output → Except Error (Reader × Output)
  | 0, r, o => if 0 < o.size then .error .unfinished else .ok (r, o)
  | n + 1, r, o =>
      if 0 < o.size then do
        let r ← r.nextBlock cfg
        let (r, o) ← r.copyOut cfg o
        r.copyRest cfg n o
      else .ok (r, o)

def Reader.readRecord (r : Reader) : Except Error (List UInt8 × Reader) := do
  -- The first round of the loop has `readHeader` set.
  let r ← r.nextBlock cfg
  let o ← r.parseHeader cfg
  let (r, o) ← r.copyOut cfg o
  let (r, o) ← r.copyRest cfg o.size o
  let bytes := read o.buf 0 o.length
  if cfg.format.validateRecordData bytes = 0 then .error (.invalidRecord r.offset o.length)
  else .ok (bytes.drop cfg.headerSize, r)

/-- Successive calls -/
def Reader.readRecords (cfg : Config) : ℕ → Reader → Except Error (List (List UInt8) × Reader)
  | 0, r => .ok ([], r)
  | n + 1, r => do
      let (buf, r) ← r.readRecord cfg
      let (bufs, r) ← r.readRecords cfg n
      .ok (buf :: bufs, r)

/-- What is left in the buffer is not looked at. -/
def Reader.isEnd (r : Reader) : Bool :=
  if cfg.metadataSize < r.offset + cfg.blockSize then true
  else !cfg.format.validateRecordHeader (read r.dev r.offset cfg.blockSize) kMetadataHeaderFileId

/-! ## Positions -/

section Positions

theorem blockSize_ge : 4096 ≤ cfg.blockSize := le_max_right _ _

theorem blockSize_le : cfg.blockSize ≤ 2 ^ 31 := by
  obtain ⟨k, hk, hpow⟩ := cfg.isPowTwo
  have hle : (2 : ℕ) ^ k ≤ 2 ^ 31 := Nat.pow_le_pow_right (by decide) hk
  exact max_le (hpow ▸ hle) (by decide)

theorem headerSize_pos : 0 < cfg.headerSize := cfg.format.headerSize_pos

theorem headerSize_le_blockSize : cfg.headerSize ≤ cfg.blockSize :=
  le_trans cfg.format.headerSize_le (blockSize_ge cfg)

/-- Where the record goes whose predecessor ends at `pos`: there, or at the beginning of the next
block if the header does not fit. -/
def Config.start (pos : ℕ) : ℕ :=
  if cfg.blockSize < pos % cfg.blockSize + cfg.headerSize then (pos / cfg.blockSize + 1) * cfg.blockSize
  else pos

theorem le_start (pos : ℕ) : pos ≤ cfg.start pos := by
  rw [Config.start]
  split
  · have hmod := Nat.mod_lt pos (Nat.lt_of_lt_of_le (by decide) (blockSize_ge cfg))
    have hdiv := Nat.div_add_mod pos cfg.blockSize
    rw [Nat.add_mul, Nat.mul_comm]
    omega
  · exact le_refl pos

variable {cfg} {offset bufIndex : ℕ}

theorem start_add (hoffset : cfg.blockSize ∣ offset) (hindex : bufIndex ≤ cfg.blockSize) :
    cfg.start (offset + bufIndex) =
      if cfg.blockSize < bufIndex + cfg.headerSize then offset + cfg.blockSize
      else offset + bufIndex := by
  obtain ⟨k, rfl⟩ := hoffset
  have hpos := blockSize_ge cfg
  have hheader := headerSize_le_blockSize cfg
  have hheaderPos := headerSize_pos cfg
  rcases Nat.lt_or_eq_of_le hindex with hlt | rfl
  · rw [Config.start, Nat.mul_add_mod, Nat.mod_eq_of_lt hlt, Nat.mul_add_div (by omega),
      Nat.div_eq_of_lt hlt]
    congr 1
    ring
  · rw [Config.start, Nat.mul_add_mod, Nat.mod_self, if_neg (by omega), if_pos (by omega)]

end Positions

theorem toInt_of_lt {n : ℕ} (h : n < 2 ^ 31) : toInt n = n := by
  rw [toInt, Int.bmod]
  omega

theorem lt_of_toInt_nonneg {n : ℕ} (hn : n < 2 ^ 32) (h : 0 ≤ toInt n) : n < 2 ^ 31 := by
  rw [toInt, Int.bmod] at h
  omega

/-- The memories agree below `n`. -/
def AgreeBelow (n : ℕ) (m m' : Memory) : Prop := ∀ i < n, m' i = m i

theorem AgreeBelow.trans {n n' : ℕ} {m m' m'' : Memory} (h : AgreeBelow n m m')
    (h' : AgreeBelow n' m' m'') (hn : n ≤ n') : AgreeBelow n m m'' := by
  intro i hi
  rw [h' i (by omega), h i hi]

theorem AgreeBelow.at {n a : ℕ} {m m' : Memory} {bs : List UInt8} (h : AgreeBelow n m m')
    (hat : At m a bs) (hn : a + bs.length ≤ n) : At m' a bs := by
  have hsame : read m' a bs.length = read m a bs.length :=
    read_congr fun i _ hi => h i (by omega)
  rw [At, hsame]
  exact hat

/-! ## What the writer leaves -/

/-- The device, with the buffer where it will be written -/
def Writer.image (w : Writer) : Memory := copy w.dev w.offset w.buffer w.bufIndex

def Writer.pos (w : Writer) : ℕ := w.offset + w.bufIndex

structure Writer.Ok (w : Writer) : Prop where
  offset : cfg.blockSize ∣ w.offset
  bufIndex : w.bufIndex ≤ cfg.blockSize

section Writer

variable {cfg} {w w' : Writer} {data : List UInt8} {size : ℕ}

theorem flushBuffer_image (hindex : w.bufIndex ≤ cfg.blockSize) :
    AgreeBelow w.pos w.image (w.flushBuffer cfg).image := by
  intro i hi
  have hpos : w.pos = w.offset + w.bufIndex := rfl
  simp only [Writer.image, Writer.flushBuffer]
  rw [copy_of_outside (by omega)]
  rcases Nat.lt_or_ge i w.offset with hlt | hge
  · rw [copy_of_outside (by omega), copy_of_outside (by omega)]
  · obtain ⟨j, rfl⟩ := Nat.exists_eq_add_of_le hge
    rw [copy_of_mem (by omega), copy_of_mem (by omega), write_of_outside (by omega)]

/-- After `makeRoom`, a header fits in. -/
theorem makeRoom_spec (h : w.Ok cfg) :
    (w.makeRoom cfg).Ok cfg ∧ (w.makeRoom cfg).pos = cfg.start w.pos ∧
      (w.makeRoom cfg).bufIndex + cfg.headerSize ≤ cfg.blockSize ∧
      AgreeBelow w.pos w.image (w.makeRoom cfg).image := by
  have hstart : cfg.start w.pos = _ := start_add h.offset h.bufIndex
  have hindex := h.bufIndex
  have hheader := headerSize_le_blockSize cfg
  rw [Writer.makeRoom]
  split at hstart
  · rename_i hfull
    rw [if_pos hfull, hstart]
    refine ⟨⟨(Nat.dvd_add_right h.offset).mpr dvd_rfl, Nat.zero_le _⟩, rfl, ?_,
      flushBuffer_image hindex⟩
    change 0 + cfg.headerSize ≤ cfg.blockSize
    omega
  · rename_i hroom
    rw [if_neg hroom, hstart]
    exact ⟨h, rfl, by omega, fun i _ => rfl⟩

/-- Bytes that are put behind what the buffer has -/
theorem image_append (chunk : List UInt8) :
    let v : Writer := { w with buffer := write w.buffer w.bufIndex chunk
                               bufIndex := w.bufIndex + chunk.length }
    AgreeBelow w.pos w.image v.image ∧ At v.image w.pos chunk := by
  have hpos : w.pos = w.offset + w.bufIndex := rfl
  refine ⟨fun i hi => ?_, ?_⟩
  · simp only [Writer.image]
    rcases Nat.lt_or_ge i w.offset with hlt | hge
    · rw [copy_of_outside (by omega), copy_of_outside (by omega)]
    · obtain ⟨j, rfl⟩ := Nat.exists_eq_add_of_le hge
      rw [copy_of_mem (by omega), copy_of_mem (by omega), write_of_outside (by omega)]
  · apply ext_getElem length_read
    intro i _ hi
    rw [getElem_read, Writer.image, hpos, Nat.add_assoc, copy_of_mem (by dsimp only; omega)]
    exact write_of_mem hi

/-- What a round puts on the device: the next bytes of the record, as far as the block goes -/
structure CopiedIn (cfg : Config) (data : List UInt8) (w : Writer) (d size : ℕ) (w' : Writer)
    (cp : ℕ) : Prop where
  inInt : d < 2 ^ 31
  le : cp ≤ size
  le_blockSize : cp ≤ cfg.blockSize
  pos : 0 < size → 0 < cp
  ok : w'.Ok cfg
  pos_eq : w'.pos = cfg.start w.pos + cp
  agree : AgreeBelow w.pos w.image w'.image
  copied : At w'.image (cfg.start w.pos) ((data.drop d).take cp)
  full : cp < size → w'.bufIndex = cfg.blockSize
  /-- There is no block boundary within the bytes. -/
  inner : ∀ e < cp, cfg.blockSize ∣ cfg.start w.pos + e → e = 0

theorem copyIn_eq_ok {d size' : ℕ} {dataOffset' : ℤ} (h : w.Ok cfg) (hd : d < 2 ^ 32)
    (hsize : d + size = data.length)
    (hstep : w.copyIn cfg data (toInt d) size = .ok (w', dataOffset', size')) :
    ∃ cp, CopiedIn cfg data w d size w' cp ∧ dataOffset' = toInt (d + cp : ℕ) ∧
      size' = size - cp := by
  obtain ⟨hok, hpos, hroom, hagree⟩ := makeRoom_spec h
  have hheader := headerSize_pos cfg
  have hle := le_start cfg w.pos
  rw [Writer.copyIn] at hstep
  generalize hv : w.makeRoom cfg = v at hstep hok hpos hroom hagree
  dsimp only at hstep
  split at hstep
  · exact nomatch hstep
  split at hstep
  · rename_i hbounds
    have hlt := lt_of_toInt_nonneg hd hbounds.1
    rw [toInt_of_lt hlt, Int.toNat_natCast] at hstep
    simp only [Except.ok.injEq, Prod.mk.injEq] at hstep
    obtain ⟨rfl, rfl, rfl⟩ := hstep
    generalize hcp : min (cfg.blockSize - v.bufIndex) size = cp
    have hlength : ((data.drop d).take cp).length = cp := by
      rw [length_take, length_drop]
      omega
    have himage := image_append (w := v) ((data.drop d).take cp)
    rw [hlength] at himage
    have hvpos : v.pos = v.offset + v.bufIndex := rfl
    refine ⟨cp, ⟨hlt, by omega, by omega, by omega, ⟨hok.offset, ?_⟩, ?_, ?_, ?_, ?_, ?_⟩, ?_, rfl⟩
    · change v.bufIndex + cp ≤ cfg.blockSize
      omega
    · rw [← hpos]
      exact (Nat.add_assoc _ _ _).symm
    · exact hagree.trans himage.1 (by omega)
    · rw [← hpos]
      exact himage.2
    · intro hlt
      change v.bufIndex + cp = cfg.blockSize
      omega
    · intro e he hdvd
      rw [← hpos, hvpos, Nat.add_assoc] at hdvd
      have hindex := (Nat.dvd_add_right hok.offset).mp hdvd
      have hzero := Nat.eq_zero_of_dvd_of_lt hindex (by omega)
      omega
    · rw [Nat.cast_add]
  · exact nomatch hstep

/-- The bytes are on the device, and every piece of them starts at an offset that an `int` has; `d`
is the offset of the first one. -/
structure Written (cfg : Config) (m : Memory) (a d : ℕ) (bytes : List UInt8) : Prop where
  copied : At m a bytes
  inInt : d < 2 ^ 31
  pieces : ∀ e < bytes.length, cfg.blockSize ∣ a + e → d + e < 2 ^ 31

theorem copyAll_eq_ok {n d : ℕ} (h : w.Ok cfg) (hd : d < 2 ^ 32) (hsize : d + size = data.length)
    (hrun : w.copyAll cfg data n (toInt d) size = .ok w') :
    w'.Ok cfg ∧ w'.pos = cfg.start w.pos + size ∧ AgreeBelow w.pos w.image w'.image ∧
      Written cfg w'.image (cfg.start w.pos) d (data.drop d) := by
  induction n generalizing w d size with
  | zero => exact nomatch hrun
  | succ n ih =>
      have hstartLe := le_start cfg w.pos
      rw [Writer.copyAll] at hrun
      split at hrun
      · exact nomatch hrun
      · rename_i v dataOffset' size' hstep
        obtain ⟨cp, hcopied, hoffset, hleft⟩ := copyIn_eq_ok h hd hsize hstep
        rw [hoffset, hleft] at hrun
        have hcple := hcopied.le
        have hblock := hcopied.le_blockSize
        have hlimit := blockSize_le cfg
        have hdlt := hcopied.inInt
        split at hrun
        · rename_i hmore
          -- The block is full: the rest goes on where the next one begins.
          have hstart : cfg.start v.pos = v.pos := by
            have hfull := hcopied.full (by omega)
            have hheader := headerSize_pos cfg
            rw [Writer.pos, start_add hcopied.ok.offset hcopied.ok.bufIndex, hfull,
              if_pos (by omega)]
          obtain ⟨hok, hend, hagree, hwritten⟩ :=
            ih (d := d + cp) hcopied.ok (by omega) (by omega) hrun
          rw [hstart, hcopied.pos_eq] at hend hwritten
          have hchunk : ((data.drop d).take cp).length = cp := by
            rw [length_take, length_drop]
            omega
          have hposEq := hcopied.pos_eq
          refine ⟨hok, by omega, hcopied.agree.trans hagree (by omega), ?_, hdlt, ?_⟩
          · rw [← take_append_drop cp (data.drop d), at_append, drop_drop, hchunk]
            exact ⟨hagree.at hcopied.copied (by rw [hchunk]; omega), hwritten.copied⟩
          · intro e he hdvd
            rcases Nat.lt_or_ge e cp with hlt | hge
            · have hzero := hcopied.inner e hlt hdvd
              omega
            · obtain ⟨e, rfl⟩ := Nat.exists_eq_add_of_le hge
              rw [← Nat.add_assoc] at hdvd ⊢
              apply hwritten.pieces e ?_ hdvd
              rw [length_drop] at he ⊢
              omega
        · rename_i hdone
          rw [Except.ok.injEq] at hrun
          subst hrun
          have hcp : cp = size := by omega
          subst hcp
          refine ⟨hcopied.ok, hcopied.pos_eq, hcopied.agree, ?_, hdlt, ?_⟩
          · have hall := hcopied.copied
            rwa [take_of_length_le (by rw [length_drop]; omega)] at hall
          · intro e he hdvd
            rw [length_drop] at he
            have hzero := hcopied.inner e (by omega) hdvd
            omega

end Writer

/-! ## The records on the device -/

def Config.record (buf : List UInt8) : List UInt8 :=
  cfg.format.header kMetadataHeaderFileId buf ++ buf

theorem length_record (buf : List UInt8) :
    (cfg.record buf).length = cfg.headerSize + buf.length := by
  rw [Config.record, length_append, cfg.format.length_header]
  rfl

/-- The records one after another, from `pos` to `stop` -/
def Laid (cfg : Config) (m : Memory) : ℕ → List (List UInt8) → ℕ → Prop
  | pos, [], stop => pos = stop
  | pos, buf :: bufs, stop =>
      (buf ≠ [] ∧ buf.length < 2 ^ 32 ∧ Written cfg m (cfg.start pos) 0 (cfg.record buf)) ∧
        Laid cfg m (cfg.start pos + (cfg.record buf).length) bufs stop

section Laid

variable {cfg} {w w' : Writer} {m m' : Memory} {pos stop : ℕ} {bufs : List (List UInt8)}

theorem Laid.le (h : Laid cfg m pos bufs stop) : pos ≤ stop := by
  induction bufs generalizing pos with
  | nil => exact Nat.le_of_eq h
  | cons buf bufs ih =>
      have hstart := le_start cfg pos
      have hrest := ih h.2
      omega

theorem Laid.agree (h : Laid cfg m pos bufs stop) (hagree : AgreeBelow stop m m') :
    Laid cfg m' pos bufs stop := by
  induction bufs generalizing pos with
  | nil => exact h
  | cons buf bufs ih =>
      obtain ⟨⟨hne, hlen, hwritten⟩, hrest⟩ := h
      have hle := hrest.le
      exact ⟨⟨hne, hlen, hagree.at hwritten.copied hle, hwritten.inInt, hwritten.pieces⟩, ih hrest⟩

theorem Laid.append {bufs' : List (List UInt8)} {mid : ℕ} (h : Laid cfg m pos bufs mid)
    (h' : Laid cfg m mid bufs' stop) : Laid cfg m pos (bufs ++ bufs') stop := by
  induction bufs generalizing pos with
  | nil => exact h.symm ▸ h'
  | cons buf bufs ih => exact ⟨h.1, ih h.2⟩

theorem writeRecord_eq_ok {buf : List UInt8} (h : w.Ok cfg)
    (hrun : w.writeRecord cfg buf = .ok w') :
    w'.Ok cfg ∧ AgreeBelow w.pos w.image w'.image ∧
      Laid cfg w'.image w.pos ([buf].filter (· ≠ [])) w'.pos := by
  rw [Writer.writeRecord] at hrun
  split at hrun
  · rename_i hlength
    rw [Except.ok.injEq] at hrun
    subst hrun
    rw [length_eq_zero_iff.mp hlength]
    exact ⟨h, fun i _ => rfl, rfl⟩
  · rename_i hlength
    split at hrun
    · exact nomatch hrun
    · rename_i hlen
      have hne : buf ≠ [] := fun h => hlength (length_eq_zero_iff.mpr h)
      obtain ⟨hok, hpos, hagree, hwritten⟩ :=
        copyAll_eq_ok (d := 0) h (by decide) (Nat.zero_add _) hrun
      rw [filter_cons_of_pos (by simpa using hne)]
      exact ⟨hok, hagree, ⟨hne, by omega, hwritten⟩, hpos.symm⟩

/-- **What was written**: the records that are not empty, behind what was there before. -/
theorem writeRecords_eq_ok (h : w.Ok cfg) (hrun : w.writeRecords cfg bufs = .ok w') :
    w'.Ok cfg ∧ AgreeBelow w.pos w.image w'.image ∧
      Laid cfg w'.image w.pos (bufs.filter (· ≠ [])) w'.pos := by
  induction bufs generalizing w with
  | nil =>
      rw [Writer.writeRecords, Except.ok.injEq] at hrun
      subst hrun
      exact ⟨h, fun i _ => rfl, rfl⟩
  | cons buf bufs ih =>
      rw [Writer.writeRecords] at hrun
      split at hrun
      · exact nomatch hrun
      · rename_i v hv
        obtain ⟨hok, hagree, hfirst⟩ := writeRecord_eq_ok h hv
        obtain ⟨hok', hagree', hrest⟩ := ih hok hrun
        rw [← singleton_append, filter_append]
        exact ⟨hok', hagree.trans hagree' hfirst.le, (hfirst.agree hagree').append hrest⟩

/-- With a block to spare, the destructor leaves all of it on the device. -/
theorem destroy_agree (hindex : w.bufIndex ≤ cfg.blockSize)
    (hroom : w.offset + cfg.blockSize < cfg.metadataSize) :
    AgreeBelow w.pos w.image (w.destroy cfg) := by
  intro i hi
  have hpos : w.pos = w.offset + w.bufIndex := rfl
  -- The block of zeros is behind the records.
  have hzeros : w.destroy cfg i = (w.writeLast cfg).dev i := by
    rw [Writer.destroy]
    split
    · apply copy_of_outside
      rw [Writer.writeLast]
      split
      · dsimp only
        omega
      · omega
    · rfl
  rw [hzeros, Writer.writeLast, Writer.image]
  by_cases hempty : 0 < w.bufIndex
  · rw [if_pos ⟨hempty, hroom⟩]
    dsimp only
    rcases Nat.lt_or_ge i w.offset with hlt | hge
    · rw [copy_of_outside (by omega), copy_of_outside (by omega)]
    · obtain ⟨j, rfl⟩ := Nat.exists_eq_add_of_le hge
      rw [copy_of_mem (by omega), copy_of_mem (by omega), write_of_outside (by omega),
        copy_zero_of_mem (by omega)]
  · rw [if_neg fun h => hempty h.1, copy_of_outside (by omega)]

end Laid

end CacheLib.Navy.RecordIO
