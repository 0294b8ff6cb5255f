/-
What a `DeviceMetaDataReader` finds of what a `DeviceMetaDataWriter` has left.

The reader follows the writer from block to block: before a header it goes to the position where the
writer has put it, and it copies a record in the pieces that the writer has made of it. The offset
of a piece in its record is an `int` on both sides, so what the writer could copy the reader can.
-/
import CacheLib.Navy.RecordIO

set_option autoImplicit false

namespace CacheLib.Navy.RecordIO

open Bytes List

/-! ## What the reader finds -/

def Reader.pos (cfg : Config) (r : Reader) : ℕ := r.offset + r.bufIndex - cfg.blockSize

/-- As long as there is something left in the buffer, it is the block before `offset`. -/
structure Reader.Ok (cfg : Config) (r : Reader) : Prop where
  offset : cfg.blockSize ∣ r.offset
  bufIndex : r.bufIndex ≤ cfg.blockSize
  loaded : r.bufIndex < cfg.blockSize → cfg.blockSize ≤ r.offset ∧
    ∀ i < cfg.blockSize, r.buffer i = r.dev (r.offset - cfg.blockSize + i)

section Reader

variable {cfg : Config} {r r' : Reader} {o o' : Output} {stop d : ℕ} {rest : List UInt8}

theorem Reader.start_pos (h : r.Ok cfg) :
    cfg.start (r.pos cfg) = if cfg.blockSize < r.bufIndex + cfg.headerSize then r.offset
      else r.pos cfg := by
  have hheader := headerSize_pos cfg
  rcases Nat.lt_or_eq_of_le h.bufIndex with hlt | heq
  · have hle := (h.loaded hlt).1
    have hpos : r.pos cfg = r.offset - cfg.blockSize + r.bufIndex := by
      rw [Reader.pos]
      omega
    rw [hpos, start_add (Nat.dvd_sub h.offset dvd_rfl) h.bufIndex, Nat.sub_add_cancel hle]
  · have hpos : r.pos cfg = r.offset + 0 := by
      rw [Reader.pos]
      omega
    have hroom := headerSize_le_blockSize cfg
    rw [hpos, start_add h.offset (Nat.zero_le _), if_neg (by omega), if_pos (by omega),
      Nat.add_zero]

/-- The reader is at `pos`, with room for a header in the block it has in its buffer. -/
structure Reader.Ready (cfg : Config) (r : Reader) (dev : Memory) (pos : ℕ) : Prop where
  ok : r.Ok cfg
  dev_eq : r.dev = dev
  pos_eq : r.pos cfg = pos
  room : r.bufIndex + cfg.headerSize ≤ cfg.blockSize

theorem nextBlock_eq_ok (h : r.Ok cfg) (hstop : cfg.blockSize ∣ stop)
    (hlimit : stop ≤ cfg.metadataSize) (hlt : cfg.start (r.pos cfg) < stop) :
    ∃ r', r.nextBlock cfg = .ok r' ∧ r'.Ready cfg r.dev (cfg.start (r.pos cfg)) := by
  have hstart := Reader.start_pos h
  have hroom := headerSize_le_blockSize cfg
  rw [Reader.nextBlock]
  split at hstart
  · rename_i hfull
    rw [hstart] at hlt ⊢
    -- Both are multiples of the block size.
    have hblock : r.offset + cfg.blockSize ≤ stop := by
      obtain ⟨k, hk⟩ := h.offset
      obtain ⟨n, rfl⟩ := hstop
      rw [hk] at hlt ⊢
      exact Nat.mul_le_mul_left _ (Nat.lt_of_mul_lt_mul_left hlt)
    rw [if_pos hfull, if_neg (by omega)]
    refine ⟨_, rfl, ⟨⟨(Nat.dvd_add_right h.offset).mpr dvd_rfl, Nat.zero_le _, fun _ => ?_⟩, rfl,
      ?_, ?_⟩⟩
    · refine ⟨Nat.le_add_left _ _, fun i hi => ?_⟩
      dsimp only
      rw [Nat.add_sub_cancel, copy_zero_of_mem hi]
    · exact Nat.add_sub_cancel r.offset cfg.blockSize
    · change 0 + cfg.headerSize ≤ cfg.blockSize
      omega
  · rename_i hnot
    rw [if_neg hnot, hstart]
    exact ⟨r, rfl, h, rfl, rfl, by omega⟩

/-- What is in the buffer, from the index on -/
theorem Reader.Ready.buffer_eq {dev : Memory} {pos i : ℕ} (h : r.Ready cfg dev pos)
    (hi : r.bufIndex + i < cfg.blockSize) : r.buffer (r.bufIndex + i) = dev (pos + i) := by
  obtain ⟨hle, hloaded⟩ := h.ok.loaded (by omega)
  have hpos := h.pos_eq
  rw [Reader.pos] at hpos
  rw [hloaded _ hi, h.dev_eq]
  congr 1
  omega

/-- What is left of a record after a round. -/
structure Pending (cfg : Config) (r : Reader) (o : Output) (d : ℕ) (rest : List UInt8) : Prop where
  ok : r.Ok cfg
  full : rest ≠ [] → r.bufIndex = cfg.blockSize
  stored : At r.dev (r.pos cfg) rest
  size_eq : o.size = rest.length
  offset_eq : o.dataOffset = toInt d
  length_eq : d + rest.length = o.length
  pieces : ∀ e < rest.length, cfg.blockSize ∣ r.pos cfg + e → d + e < 2 ^ 31

/-- What a round copies: the next bytes of the record, as far as the block goes -/
structure CopiedOut (cfg : Config) (r : Reader) (o : Output) (d : ℕ) (rest : List UInt8)
    (r' : Reader) (o' : Output) (cp : ℕ) : Prop where
  le : cp ≤ rest.length
  pos : rest ≠ [] → 0 < cp
  dev_eq : r'.dev = r.dev
  pos_eq : r'.pos cfg = r.pos cfg + cp
  agree : AgreeBelow d o.buf o'.buf
  copied : At o'.buf d (rest.take cp)
  length_eq : o'.length = o.length
  pending : Pending cfg r' o' (d + cp) (rest.drop cp)

theorem copyOut_eq_ok {dev : Memory} {pos : ℕ} (h : r.Ready cfg dev pos) (hat : At dev pos rest)
    (hsize : o.size = rest.length) (hoffset : o.dataOffset = d)
    (hlength : d + rest.length = o.length)
    (hpieces : ∀ e < rest.length, cfg.blockSize ∣ pos + e → d + e < 2 ^ 31) :
    ∃ cp r' o', r.copyOut cfg o = .ok (r', o') ∧ CopiedOut cfg r o d rest r' o' cp ∧
      r'.bufIndex = r.bufIndex + cp := by
  have hroom := h.room
  have hheader := headerSize_pos cfg
  obtain ⟨hle, -⟩ := h.ok.loaded (by omega)
  generalize hcp : min (cfg.blockSize - r.bufIndex) o.size = cp
  have htake : (rest.take cp).length = cp := length_take_of_le (by omega)
  have hdrop : (rest.drop cp).length = rest.length - cp := length_drop
  rw [Reader.copyOut, hoffset, Int.toNat_natCast, hcp, if_pos ⟨Int.natCast_nonneg d, by omega⟩]
  generalize hr' : ({ r with bufIndex := r.bufIndex + cp } : Reader) = r'
  have hpos : r'.pos cfg = pos + cp := by
    rw [← hr', ← h.pos_eq, Reader.pos, Reader.pos]
    dsimp only
    omega
  refine ⟨cp, r', _, rfl, ⟨by omega, ?_, by rw [← hr'], by rw [hpos, h.pos_eq], ?_, ?_, rfl, ?_⟩,
    by rw [← hr']⟩
  · intro hne
    have hlt := length_pos_iff.mpr hne
    omega
  · intro i hi
    dsimp only
    exact copy_of_outside (Or.inl hi)
  · apply ext_getElem length_read
    intro i _ hi
    rw [getElem_read]
    dsimp only
    rw [copy_of_mem (by omega), h.buffer_eq (by omega), getElem_take]
    have hget := getElem_read (m := dev) (a := pos) (n := rest.length) (i := i)
      (by rw [length_read]; omega)
    rw [← hget]
    congr 1
  · refine ⟨?_, ?_, ?_, by dsimp only; omega, by push_cast; rfl, by dsimp only; omega, ?_⟩
    · rw [← hr']
      exact ⟨h.ok.offset, by dsimp only; omega, fun _ => h.ok.loaded (by omega)⟩
    · intro hne
      have hmore := length_pos_iff.mpr hne
      rw [← hr']
      dsimp only
      omega
    · rw [← take_append_drop cp rest, at_append, htake] at hat
      rw [hpos, ← hr', h.dev_eq]
      exact hat.2
    · intro e he hdvd
      rw [hpos, Nat.add_assoc] at hdvd
      rw [Nat.add_assoc]
      exact hpieces (cp + e) (by omega) hdvd

/-- The rounds copy what is left. -/
theorem copyRest_eq_ok {n : ℕ} (h : Pending cfg r o d rest) (hstop : cfg.blockSize ∣ stop)
    (hlimit : stop ≤ cfg.metadataSize) (hle : r.pos cfg + rest.length ≤ stop)
    (hn : rest.length ≤ n) :
    ∃ r' o', r.copyRest cfg n o = .ok (r', o') ∧ r'.Ok cfg ∧ r'.dev = r.dev ∧
      r'.pos cfg = r.pos cfg + rest.length ∧ (0 < r.bufIndex → 0 < r'.bufIndex) ∧
      AgreeBelow d o.buf o'.buf ∧ At o'.buf d rest ∧ o'.length = o.length := by
  have hsize := h.size_eq
  induction n generalizing r o d rest with
  | zero =>
      obtain rfl : rest = [] := length_eq_zero_iff.mp (by omega)
      rw [Reader.copyRest, if_neg (by rw [hsize]; decide)]
      exact ⟨r, o, rfl, h.ok, rfl, rfl, id, fun i _ => rfl, at_nil, rfl⟩
  | succ n ih =>
      by_cases hnil : rest = []
      · subst hnil
        rw [Reader.copyRest, if_neg (by rw [hsize]; decide)]
        exact ⟨r, o, rfl, h.ok, rfl, rfl, id, fun i _ => rfl, at_nil, rfl⟩
      · have hpos : 0 < rest.length := length_pos_iff.mpr hnil
        have hheader := headerSize_pos cfg
        have hindex := h.full hnil
        -- The rest starts with the next block.
        have hblock : r.pos cfg = r.offset := by
          rw [Reader.pos, hindex, Nat.add_sub_cancel]
        have hstart : cfg.start (r.pos cfg) = r.pos cfg := by
          rw [Reader.start_pos h.ok, if_pos (by omega), hblock]
        have hd : d < 2 ^ 31 := h.pieces 0 hpos (by rw [hblock]; exact h.ok.offset)
        obtain ⟨r₁, hnext, hready⟩ := nextBlock_eq_ok h.ok hstop hlimit (by omega)
        rw [hstart] at hready
        obtain ⟨cp, r₂, o₂, hcopy, hcopied, hindex₂⟩ := copyOut_eq_ok hready h.stored hsize
          (h.offset_eq.trans (toInt_of_lt hd)) h.length_eq h.pieces
        have hpos₂ : r₂.pos cfg = r.pos cfg + cp := by rw [hcopied.pos_eq, hready.pos_eq]
        have hcppos := hcopied.pos hnil
        have hcple := hcopied.le
        have htake : (rest.take cp).length = cp := length_take_of_le hcple
        have hdrop : (rest.drop cp).length = rest.length - cp := length_drop
        obtain ⟨r₃, o₃, hrun, hok₃, hdev₃, hpos₃, hindex₃, hagree₃, hat₃, hlength₃⟩ :=
          ih hcopied.pending (by omega) (by omega) hcopied.pending.size_eq
        rw [Reader.copyRest, if_pos (by omega), hnext]
        refine ⟨r₃, o₃, ?_, hok₃, hdev₃.trans (hcopied.dev_eq.trans hready.dev_eq), by omega,
          fun _ => hindex₃ (by omega), hcopied.agree.trans hagree₃ (by omega), ?_,
          hlength₃.trans hcopied.length_eq⟩
        · change (r₁.copyOut cfg o >>= fun x => x.1.copyRest cfg n x.2) = _
          rw [hcopy]
          exact hrun
        · rw [← take_append_drop cp rest, at_append, htake]
          exact ⟨hagree₃.at hcopied.copied (by rw [htake]), hat₃⟩

theorem parseHeader_eq_ok {dev : Memory} {pos : ℕ} {buf : List UInt8} (h : r.Ready cfg dev pos)
    (hat : At dev pos (cfg.record buf)) (hne : buf ≠ []) (hlen : buf.length < 2 ^ 32) :
    r.parseHeader cfg = .ok
      { buf := fun _ => 0, length := (cfg.record buf).length, size := (cfg.record buf).length
        dataOffset := 0 } := by
  have hroom := h.room
  have hheader : read r.buffer r.bufIndex cfg.headerSize
      = cfg.format.header kMetadataHeaderFileId buf := by
    have hfirst := (at_append.mp hat).1
    rw [At, cfg.format.length_header] at hfirst
    rw [← hfirst]
    apply map_congr_left
    intro i hi
    have hlt : i < cfg.headerSize := mem_range.mp hi
    exact h.buffer_eq (by omega)
  have hsplit : cfg.blockSize - r.bufIndex
      = cfg.headerSize + (cfg.blockSize - r.bufIndex - cfg.headerSize) := by omega
  rw [Reader.parseHeader, hsplit, read_add, hheader,
    if_pos (cfg.format.validateRecordHeader_header _ _ _ hne hlen),
    cfg.format.dataLength_header _ _ _ hne hlen, length_record]

/-- **A record that was written is read.** -/
theorem readRecord_eq_ok {buf : List UInt8} (h : r.Ok cfg) (hstop : cfg.blockSize ∣ stop)
    (hlimit : stop ≤ cfg.metadataSize) (hne : buf ≠ []) (hlen : buf.length < 2 ^ 32)
    (hwritten : Written cfg r.dev (cfg.start (r.pos cfg)) 0 (cfg.record buf))
    (hle : cfg.start (r.pos cfg) + (cfg.record buf).length ≤ stop) :
    ∃ r', r.readRecord cfg = .ok (buf, r') ∧ r'.Ok cfg ∧ r'.dev = r.dev ∧ 0 < r'.bufIndex ∧
      r'.pos cfg = cfg.start (r.pos cfg) + (cfg.record buf).length := by
  have hlength := length_record cfg buf
  have hheader := headerSize_pos cfg
  obtain ⟨r₁, hnext, hready⟩ := nextBlock_eq_ok h hstop hlimit (by omega)
  have hparse := parseHeader_eq_ok hready hwritten.copied hne hlen
  obtain ⟨cp, r₂, o₂, hcopy, hcopied, hindex₂⟩ := copyOut_eq_ok
    (o := ⟨fun _ => 0, (cfg.record buf).length, (cfg.record buf).length, 0⟩) (d := 0)
    hready hwritten.copied rfl rfl (Nat.zero_add _) hwritten.pieces
  have hpos₂ : r₂.pos cfg = cfg.start (r.pos cfg) + cp := by rw [hcopied.pos_eq, hready.pos_eq]
  have hcple := hcopied.le
  have hcppos := hcopied.pos (ne_nil_of_length_pos (by omega))
  have htake : ((cfg.record buf).take cp).length = cp := length_take_of_le hcple
  have hdrop : ((cfg.record buf).drop cp).length = (cfg.record buf).length - cp := length_drop
  obtain ⟨r₃, o₃, hrun, hok₃, hdev₃, hpos₃, hindex₃, hagree₃, hat₃, hlength₃⟩ :=
    copyRest_eq_ok hcopied.pending hstop hlimit (by omega) (Nat.le_of_eq hcopied.pending.size_eq.symm)
  have hbytes : read o₃.buf 0 o₃.length = cfg.record buf := by
    rw [hlength₃.trans hcopied.length_eq]
    change At o₃.buf 0 (cfg.record buf)
    rw [← take_append_drop cp (cfg.record buf), at_append, htake]
    exact ⟨hagree₃.at hcopied.copied (by rw [htake]), hat₃⟩
  have hvalid : cfg.format.validateRecordData (cfg.record buf) ≠ 0 := by
    rw [Config.record, cfg.format.validateRecordData_header _ _ hne hlen]
    decide
  refine ⟨r₃, ?_, hok₃, hdev₃.trans (hcopied.dev_eq.trans hready.dev_eq), hindex₃ (by omega),
    by omega⟩
  rw [Reader.readRecord, hnext]
  change (r₁.parseHeader cfg >>= _) = _
  rw [hparse]
  change (r₁.copyOut cfg _ >>= _) = _
  rw [hcopy]
  change (r₂.copyRest cfg o₂.size o₂ >>= _) = _
  rw [hrun]
  change (if cfg.format.validateRecordData (read o₃.buf 0 o₃.length) = 0 then _ else
    Except.ok ((read o₃.buf 0 o₃.length).drop cfg.headerSize, r₃)) = _
  rw [hbytes, if_neg hvalid, Config.record, Config.headerSize,
    drop_left' (cfg.format.length_header kMetadataHeaderFileId buf)]

theorem readRecords_eq_ok {pos e : ℕ} {bufs : List (List UInt8)} (h : r.Ok cfg)
    (hindex : 0 < r.bufIndex) (hstop : cfg.blockSize ∣ stop) (hlimit : stop ≤ cfg.metadataSize)
    (hle : e ≤ stop) (hpos : r.pos cfg = pos) (hlaid : Laid cfg r.dev pos bufs e) :
    ∃ r', r.readRecords cfg bufs.length = .ok (bufs, r') ∧ r'.Ok cfg ∧ r'.dev = r.dev ∧
      0 < r'.bufIndex ∧ r'.pos cfg = e := by
  induction bufs generalizing r pos with
  | nil => exact ⟨r, rfl, h, rfl, hindex, hpos.trans hlaid⟩
  | cons buf bufs ih =>
      subst hpos
      obtain ⟨⟨hne, hlen, hwritten⟩, hrest⟩ := hlaid
      have hrestLe := hrest.le
      obtain ⟨r₁, hread, hok, hdev, hindex, hpos⟩ :=
        readRecord_eq_ok h hstop hlimit hne hlen hwritten (by omega)
      rw [← hdev] at hrest
      obtain ⟨r₂, hall, hok₂, hdev₂, hend⟩ := ih hok hindex hpos hrest
      refine ⟨r₂, ?_, hok₂, hdev₂.trans hdev, hend⟩
      rw [length_cons, Reader.readRecords, hread]
      change (r₁.readRecords cfg bufs.length >>= _) = _
      rw [hall]
      rfl

end Reader

/-! ## From one to the other -/

section RoundTrip

variable {cfg : Config}

theorem ok_new (dev : Memory) : (Writer.new dev).Ok cfg :=
  ⟨Nat.dvd_zero _, Nat.zero_le _⟩

theorem Reader.ok_new (dev : Memory) : (Reader.new cfg dev).Ok cfg :=
  ⟨Nat.dvd_zero _, le_refl _, fun h => absurd h (Nat.lt_irrefl _)⟩

theorem Reader.pos_new (dev : Memory) : (Reader.new cfg dev).pos cfg = 0 := by
  simp [Reader.pos, Reader.new]

theorem Reader.bufIndex_new_pos (dev : Memory) : 0 < (Reader.new cfg dev).bufIndex :=
  Nat.lt_of_lt_of_le (by decide) (blockSize_ge cfg)

/-- **The records come back**, in order and without those that are empty, if there is more than one
block of the space left for the last of them. -/
theorem readRecords_of_writeRecords {dev : Memory} {w : Writer} {bufs : List (List UInt8)}
    (hwrite : (Writer.new dev).writeRecords cfg bufs = .ok w)
    (hroom : w.offset + cfg.blockSize < cfg.metadataSize) :
    ∃ r, (Reader.new cfg (w.destroy cfg)).readRecords cfg (bufs.filter (· ≠ [])).length
      = .ok (bufs.filter (· ≠ []), r) := by
  obtain ⟨hok, -, hlaid⟩ := writeRecords_eq_ok (ok_new dev) hwrite
  have hdevice := hlaid.agree (destroy_agree hok.bufIndex hroom)
  have hpos : w.pos = w.offset + w.bufIndex := rfl
  have hindex := hok.bufIndex
  have hstop : cfg.blockSize ∣ w.offset + cfg.blockSize := (Nat.dvd_add_right hok.offset).mpr dvd_rfl
  obtain ⟨r, hread, -⟩ := readRecords_eq_ok (Reader.ok_new _) (Reader.bufIndex_new_pos _) hstop
    hroom.le (by omega) (Reader.pos_new _) hdevice
  exact ⟨r, hread⟩

end RoundTrip

/-! ## The end -/

section End

variable {cfg : Config} {r : Reader} {w : Writer} {pos stop : ℕ}

theorem Laid.split {m : Memory} {bufs bufs' : List (List UInt8)}
    (h : Laid cfg m pos (bufs ++ bufs') stop) :
    ∃ mid, Laid cfg m pos bufs mid ∧ Laid cfg m mid bufs' stop := by
  induction bufs generalizing pos with
  | nil => exact ⟨pos, rfl, h⟩
  | cons buf bufs ih =>
      obtain ⟨mid, hfirst, hrest⟩ := ih h.2
      exact ⟨mid, ⟨h.1, hfirst⟩, hrest⟩

/-- Where each of the records lies: from and to which position -/
def Config.places (cfg : Config) : ℕ → List (List UInt8) → List (ℕ × ℕ)
  | _, [] => []
  | pos, buf :: bufs =>
      (cfg.start pos, cfg.start pos + (cfg.record buf).length)
        :: cfg.places (cfg.start pos + (cfg.record buf).length) bufs

/-- Where the last of them ends -/
def Config.endOf (cfg : Config) (pos : ℕ) (bufs : List (List UInt8)) : ℕ :=
  bufs.foldl (fun pos buf => cfg.start pos + (cfg.record buf).length) pos

/-- The first beginning of a block that is not before the position -/
def Config.nextBlock (cfg : Config) (pos : ℕ) : ℕ :=
  (pos + (cfg.blockSize - 1)) / cfg.blockSize * cfg.blockSize

theorem block_unique {size a b pos : ℕ} (ha : size ∣ a) (hb : size ∣ b) (hle : pos ≤ a)
    (hlt : a < pos + size) (hle' : pos ≤ b) (hlt' : b < pos + size) : a = b := by
  have hab := Nat.eq_zero_of_dvd_of_lt (Nat.dvd_sub hb ha) (by omega)
  have hba := Nat.eq_zero_of_dvd_of_lt (Nat.dvd_sub ha hb) (by omega)
  omega

theorem Laid.endOf_eq {m : Memory} {bufs : List (List UInt8)} (h : Laid cfg m pos bufs stop) :
    cfg.endOf pos bufs = stop := by
  induction bufs generalizing pos with
  | nil => exact h
  | cons buf bufs ih => exact ih h.2

/-- No record starts behind the beginning of a block in front of which another one ends. -/
theorem start_le {block : ℕ} (hblock : cfg.blockSize ∣ block) (hle : pos ≤ block) :
    cfg.start pos ≤ block := by
  obtain ⟨n, rfl⟩ := hblock
  rw [Config.start]
  split
  · rename_i hfull
    rw [Nat.mul_comm]
    refine Nat.mul_le_mul_left _ (Nat.div_lt_of_lt_mul (Nat.lt_of_le_of_ne hle ?_))
    rintro rfl
    rw [Nat.mul_mod_right] at hfull
    exact absurd (headerSize_le_blockSize cfg) (by omega)
  · exact hle

/-- A block that begins in front of the end of the records begins in one of them. -/
theorem Laid.exists_place {m : Memory} {bufs : List (List UInt8)} (h : Laid cfg m pos bufs stop)
    {block : ℕ} (hblock : cfg.blockSize ∣ block) (hle : pos ≤ block) (hlt : block < stop) :
    ∃ place ∈ cfg.places pos bufs, place.1 ≤ block ∧ block < place.2 := by
  induction bufs generalizing pos with
  | nil => exact absurd hlt (Nat.not_lt.mpr (h.symm.le.trans hle))
  | cons buf bufs ih =>
      by_cases hin : block < cfg.start pos + (cfg.record buf).length
      · exact ⟨_, mem_cons_self, start_le hblock hle, hin⟩
      · obtain ⟨place, hmem, hplace⟩ := ih h.2 (Nat.not_lt.mp hin)
        exact ⟨place, mem_cons_of_mem _ hmem, hplace⟩

/-- A record has a header where it starts. -/
theorem Laid.place_spec {m : Memory} {bufs : List (List UInt8)} (h : Laid cfg m pos bufs stop)
    {place : ℕ × ℕ} (hmem : place ∈ cfg.places pos bufs) :
    place.1 < place.2 ∧ place.2 ≤ stop ∧
      cfg.format.validateRecordHeader (read m place.1 cfg.blockSize) kMetadataHeaderFileId = true := by
  induction bufs generalizing pos with
  | nil => cases hmem
  | cons buf bufs ih =>
      obtain ⟨⟨hne, hlen, hwritten⟩, hrest⟩ := h
      rcases mem_cons.mp hmem with rfl | hmem
      · have hlength := length_record cfg buf
        have hheader := headerSize_pos cfg
        have hfirst := (at_append.mp hwritten.copied).1
        rw [At, cfg.format.length_header] at hfirst
        have hsplit : cfg.blockSize = cfg.format.headerSize + (cfg.blockSize - cfg.format.headerSize) :=
          (Nat.add_sub_cancel' (headerSize_le_blockSize cfg)).symm
        refine ⟨by omega, hrest.le, ?_⟩
        rw [hsplit, read_add, hfirst]
        exact cfg.format.validateRecordHeader_header _ _ _ hne hlen
      · exact ih hrest hmem

theorem isEnd_eq_false_iff : r.isEnd cfg = false ↔ r.offset + cfg.blockSize ≤ cfg.metadataSize ∧
    cfg.format.validateRecordHeader (read r.dev r.offset cfg.blockSize) kMetadataHeaderFileId
      = true := by
  rw [Reader.isEnd]
  split <;> simp <;> omega

/-- The next block that is read -/
theorem Reader.offset_bounds (h : r.Ok cfg) (hindex : 0 < r.bufIndex) :
    r.pos cfg ≤ r.offset ∧ r.offset < r.pos cfg + cfg.blockSize := by
  have hblock := h.bufIndex
  have hloaded := h.loaded
  rw [Reader.pos]
  omega

theorem Reader.offset_eq (h : r.Ok cfg) (hindex : 0 < r.bufIndex) :
    r.offset = cfg.nextBlock (r.pos cfg) := by
  have hsize := blockSize_ge cfg
  obtain ⟨hle, hlt⟩ := Reader.offset_bounds h hindex
  have hmod := Nat.div_add_mod' (r.pos cfg + (cfg.blockSize - 1)) cfg.blockSize
  have hmodlt := Nat.mod_lt (r.pos cfg + (cfg.blockSize - 1)) (by omega : 0 < cfg.blockSize)
  refine block_unique h.offset (Nat.dvd_mul_left _ _) hle hlt ?_ ?_
  all_goals
    rw [Config.nextBlock]
    omega

section

variable (h : r.Ok cfg) (hok : w.Ok cfg) (hroom : w.offset + cfg.blockSize < cfg.metadataSize)
  (hle : w.pos ≤ r.offset) (hlt : r.offset < w.pos + cfg.blockSize)

include h hok hroom hle hlt

theorem Reader.offset_eq_writeLast : r.offset = (w.writeLast cfg).offset := by
  have hsize := blockSize_ge cfg
  have hindex := hok.bufIndex
  rw [Writer.writeLast]
  rw [Writer.pos] at hle hlt
  by_cases hempty : 0 < w.bufIndex
  · rw [if_pos ⟨hempty, hroom⟩]
    exact block_unique h.offset ((Nat.dvd_add_right hok.offset).mpr dvd_rfl) hle hlt
      (Nat.add_le_add_left hindex _) (by dsimp only; omega)
  · rw [if_neg fun h => hempty h.1]
    exact block_unique h.offset hok.offset hle hlt (by omega) (by omega)

/-- Behind all the records there are zeros, or the end of the space. -/
theorem isEnd_of_behind (hdev : r.dev = w.destroy cfg)
    (hzero : cfg.format.validateRecordHeader (replicate cfg.blockSize 0)
      kMetadataHeaderFileId = false) : r.isEnd cfg = true := by
  have hoffset := Reader.offset_eq_writeLast h hok hroom hle hlt
  rw [Reader.isEnd]
  split
  · rfl
  · have hzeros : read r.dev r.offset cfg.blockSize = replicate cfg.blockSize 0 := by
      apply ext_getElem (by simp)
      intro i hi _
      rw [length_read] at hi
      rw [getElem_read, getElem_replicate, hdev, hoffset, Writer.destroy,
        if_pos (by omega), copy_of_mem hi]
    rw [hzeros, hzero]
    rfl

end

/-- After a record that ends at `pos`, one of the records starts with the next block; or one goes on
there, and what it begins the block with passes for a header. -/
def HeaderAhead (cfg : Config) (dev : Memory) (bufs : List (List UInt8)) (pos : ℕ) : Prop :=
  ∃ place ∈ cfg.places 0 bufs, place.1 = cfg.nextBlock pos ∨
    (place.1 < cfg.nextBlock pos ∧ cfg.nextBlock pos < place.2 ∧
      cfg.format.validateRecordHeader (read dev (cfg.nextBlock pos) cfg.blockSize)
        kMetadataHeaderFileId = true)

/-- **When `isEnd` is right**: after the last record, and if the block behind the one in the buffer
begins with a record, or with the middle of one that passes for a header. -/
theorem isEnd_iff {dev : Memory} {bufs : List (List UInt8)}
    (hwrite : (Writer.new dev).writeRecords cfg bufs = .ok w)
    (hroom : w.offset + cfg.blockSize < cfg.metadataSize)
    (hzero : cfg.format.validateRecordHeader (replicate cfg.blockSize 0)
      kMetadataHeaderFileId = false) {k : ℕ} (hk : k ≤ (bufs.filter (· ≠ [])).length) :
    ∃ r, (Reader.new cfg (w.destroy cfg)).readRecords cfg k
        = .ok ((bufs.filter (· ≠ [])).take k, r) ∧
      ((r.isEnd cfg = true ↔ k = (bufs.filter (· ≠ [])).length) ↔
        k = (bufs.filter (· ≠ [])).length ∨ HeaderAhead cfg (w.destroy cfg) (bufs.filter (· ≠ []))
          (cfg.endOf 0 ((bufs.filter (· ≠ [])).take k))) := by
  obtain ⟨hok, -, hlaid⟩ := writeRecords_eq_ok (ok_new dev) hwrite
  have hdevice := hlaid.agree (destroy_agree hok.bufIndex hroom)
  generalize bufs.filter (· ≠ []) = records at hdevice hk
  have hend : w.pos ≤ w.offset + cfg.blockSize := Nat.add_le_add_left hok.bufIndex _
  have hstop : cfg.blockSize ∣ w.offset + cfg.blockSize := (Nat.dvd_add_right hok.offset).mpr dvd_rfl
  obtain ⟨mid, hread, hrest⟩ := ((take_append_drop k records).symm ▸ hdevice).split
  have hmid := hrest.le
  obtain ⟨r, hrun, hr, hdev, hindex, hpos⟩ := readRecords_eq_ok
    (Reader.ok_new (w.destroy cfg)) (Reader.bufIndex_new_pos _) hstop hroom.le (by omega)
    (Reader.pos_new _) hread
  rw [length_take_of_le hk] at hrun
  change r.dev = w.destroy cfg at hdev
  have hoffset := Reader.offset_eq hr hindex
  obtain ⟨hle, hlt⟩ := Reader.offset_bounds hr hindex
  rw [hpos] at hoffset hle hlt
  refine ⟨r, hrun, ?_⟩
  have hmid_eq : cfg.endOf 0 (records.take k) = mid := hread.endOf_eq
  rw [hmid_eq, HeaderAhead, ← hoffset]
  by_cases hall : k = records.length
  · rw [drop_of_length_le hall.ge] at hrest
    have htrue := isEnd_of_behind hr hok hroom (hrest ▸ hle) (hrest ▸ hlt) hdev hzero
    simp [htrue, hall]
  simp only [hall, iff_false, false_or, Bool.not_eq_true]
  constructor
  · intro hfalse
    have hahead : r.offset < w.pos := by
      by_contra hbehind
      have htrue := isEnd_of_behind hr hok hroom (Nat.not_lt.mp hbehind) (by omega) hdev hzero
      rw [hfalse] at htrue
      cases htrue
    obtain ⟨place, hmem, hfrom, hto⟩ := hdevice.exists_place hr.offset (Nat.zero_le _) hahead
    refine ⟨place, hmem, (Nat.eq_or_lt_of_le hfrom).imp_right fun hbefore => ?_⟩
    exact ⟨hbefore, hto, hdev ▸ (isEnd_eq_false_iff.mp hfalse).2⟩
  · rintro ⟨place, hmem, hplace⟩
    obtain ⟨hbefore, hlast, hvalid⟩ := hdevice.place_spec hmem
    have hahead : r.offset < w.offset + cfg.blockSize := by
      rcases hplace with hat | ⟨-, hto, -⟩ <;> omega
    have hblock : r.offset + cfg.blockSize ≤ w.offset + cfg.blockSize := by
      obtain ⟨i, hi⟩ := hr.offset
      obtain ⟨n, hn⟩ := hstop
      rw [hi, hn] at hahead ⊢
      exact Nat.mul_le_mul_left _ (Nat.lt_of_mul_lt_mul_left hahead)
    refine isEnd_eq_false_iff.mpr ⟨by omega, ?_⟩
    rw [hdev]
    rcases hplace with hat | ⟨-, -, hpasses⟩
    · exact hat ▸ hvalid
    · exact hpasses

end End

/-! ## An example of a format -/

/-- Magic number, version and flags, and file id -/
def plainFront (fileId : UInt32) : List UInt8 :=
  toLE 4 0xeac313a1 ++ toLE 4 0 ++ toLE 4 fileId.toNat

/-- Behind the front: the length, a hash of the data (here their sum), and the hash of the header -/
def plainHeader (fileId : UInt32) (data : List UInt8) : List UInt8 :=
  plainFront fileId ++ (toLE 4 data.length ++ (toLE 8 (data.map UInt8.toNat).sum ++ toLE 4 0))

theorem length_plainFront (fileId : UInt32) : (plainFront fileId).length = 12 := by
  simp only [plainFront, length_append, length_toLE]

theorem length_plainHeader (fileId : UInt32) (data : List UInt8) :
    (plainHeader fileId data).length = 28 := by
  simp only [plainHeader, length_append, length_toLE, length_plainFront]

theorem plainHeader_hash (fileId : UInt32) (data rest : List UInt8) :
    ((plainHeader fileId data ++ rest).drop 16).take 8 = toLE 8 (data.map UInt8.toNat).sum := by
  have hlength : (plainFront fileId ++ toLE 4 data.length).length = 16 := by
    rw [length_append, length_plainFront, length_toLE]
  rw [plainHeader, ← append_assoc, append_assoc, drop_left' hlength,
    append_assoc, take_left' (length_toLE _ _)]

theorem plainHeader_fileId (fileId : UInt32) (data rest : List UInt8) :
    ((plainHeader fileId data ++ rest).drop 8).take 4 = toLE 4 fileId.toNat := by
  have hlength : (toLE 4 0xeac313a1 ++ toLE 4 0).length = 8 := by
    rw [length_append, length_toLE, length_toLE]
  rw [plainHeader, plainFront, append_assoc, append_assoc, drop_left' hlength,
    take_left' (length_toLE _ _)]

def plainFormat : RecordFormat where
  headerSize := 28
  header := plainHeader
  validateRecordHeader range fileId := range.take 12 = plainFront fileId
  dataLength range := UInt32.ofNat (ofLE ((range.drop 12).take 4))
  validateRecordData range :=
    if (range.drop 16).take 8 = toLE 8 ((range.drop 28).map UInt8.toNat).sum then
      UInt32.ofNat (ofLE ((range.drop 8).take 4))
    else 0
  headerSize_pos := by decide
  headerSize_le := by decide
  length_header := length_plainHeader
  validateRecordHeader_header := by
    intro fileId data rest _ _
    rw [decide_eq_true_eq, plainHeader, append_assoc,
      take_left' (length_plainFront fileId)]
  dataLength_header := by
    intro fileId data rest _ hlen
    rw [plainHeader, append_assoc, drop_left' (length_plainFront fileId),
      append_assoc, take_left' (length_toLE _ _), ofLE_toLE (by simpa using hlen),
      UInt32.toNat_ofNat', Nat.mod_eq_of_lt hlen]
  validateRecordData_header := by
    intro fileId data _ hlen
    rw [plainHeader_hash, drop_left' (length_plainHeader fileId data), if_pos rfl,
      plainHeader_fileId, uint32_ofLE_toLE]

/-- Two blocks for the metadata -/
def twoBlocks : Config where
  format := plainFormat
  ioAlignmentSize := 512
  metadataSize := 8192
  isPowTwo := ⟨9, by decide⟩
  metadataSize_lt := by decide

def oneBlock : Config := { twoBlocks with metadataSize := 4096, metadataSize_lt := by decide }

/-- What a reader on the device returns for so many calls, if `writeRecord` returns for each of the
records -/
def readBack (cfg : Config) (bufs : List (List UInt8)) (n : ℕ) :
    Option (Except Error (List (List UInt8))) :=
  match (Writer.new fun _ => 0).writeRecords cfg bufs with
  | .error _ => none
  | .ok w => some ((·.1) <$> (Reader.new cfg (w.destroy cfg)).readRecords cfg n)

theorem writeRecords_twoBlocks : ∃ w, (Writer.new fun _ => 0).writeRecords twoBlocks
    [[99, 97, 116], [], [102]] = .ok w ∧ w.offset = 0 := by
  have hoffset : ((Writer.new fun _ => 0).writeRecords twoBlocks
      [[99, 97, 116], [], [102]]).toOption.map Writer.offset = some 0 := by decide +kernel
  cases hwrite : (Writer.new fun _ => 0).writeRecords twoBlocks [[99, 97, 116], [], [102]] with
  | error e =>
      rw [hwrite] at hoffset
      exact nomatch hoffset
  | ok w =>
      rw [hwrite] at hoffset
      exact ⟨w, rfl, Option.some.inj hoffset⟩

theorem readRecords_of_writeRecords_twoBlocks :
    readBack twoBlocks [[99, 97, 116], [], [102]] 2 = some (.ok [[99, 97, 116], [102]]) := by
  obtain ⟨w, hwrite, hzero⟩ := writeRecords_twoBlocks
  obtain ⟨r, hread⟩ := readRecords_of_writeRecords hwrite (by rw [hzero]; decide)
  rw [readBack, hwrite]
  change some (_ <$> (Reader.new twoBlocks (w.destroy twoBlocks)).readRecords twoBlocks 2) = _
  rw [show (2 : ℕ) = ([[99, 97, 116], [], [102]].filter (· ≠ ([] : List UInt8))).length from rfl,
    hread]
  rfl

/-- With one block the record is dropped, and the reader finds the block of zeros in its place. A
record without a byte is not written in the first place. -/
theorem last_block_dropped :
    readBack oneBlock [[99]] 1 = some (.error .invalidRecordHeader) ∧
      readBack twoBlocks [[]] 1 = some (.error .invalidRecordHeader) := by
  decide +kernel

/-- What `isEnd` says after so many of the records -/
def endAfter (cfg : Config) (bufs : List (List UInt8)) (k : ℕ) : Option Bool :=
  ((Writer.new fun _ => 0).writeRecords cfg bufs).toOption.bind fun w =>
    ((Reader.new cfg (w.destroy cfg)).readRecords cfg k).toOption.map fun p => p.2.isEnd cfg

/-- Two records in one block: after the first one `isEnd` looks at the zeros behind both. -/
theorem end_before_the_last : endAfter twoBlocks [[99, 97, 116], [102]] 1 = some true := by
  decide +kernel

theorem isEnd_iff_twoBlocks : endAfter twoBlocks [[99, 97, 116], [], [102]] 2 = some true := by
  obtain ⟨w, hwrite, hzero⟩ := writeRecords_twoBlocks
  obtain ⟨r, hread, hright⟩ := isEnd_iff hwrite (by rw [hzero]; decide) (by decide +kernel)
    (k := 2) (le_refl 2)
  have hend : r.isEnd twoBlocks = true := (hright.mpr (Or.inl rfl)).mpr rfl
  simp only [endAfter, hwrite, Except.toOption, Option.bind_some, hread, Option.map_some, hend]

end CacheLib.Navy.RecordIO
