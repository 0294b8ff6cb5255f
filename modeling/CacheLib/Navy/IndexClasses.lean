/-
What a `FixedSizeIndex` without overflow handling keeps of its keys.

The table does not know keys. A bucket in use is labelled with a home bucket, through the
offset it is at, and with eight bits, so that the keys with the same bucket id and
partial bits are one class. An insert may give up the entry of another class, but no
call doubles an entry or writes under a class other than that of its key (`Effect`).
-/
import CacheLib.Lib.Run
import CacheLib.Navy.IndexTable

set_option autoImplicit false

namespace CacheLib.Navy.FixedSizeIndex

open SlotTable Transition Function List Option

variable {cfg : Config} {s s' : State} {home : UInt64} {tag : UInt8} {i : Fin 4}
  {r : PackedItemRecord}

/-! ## Classes -/

/-- What the index knows of a key. -/
def Config.classOf (cfg : Config) (key : UInt64) : UInt64 × UInt8 :=
  (cfg.bucketId key, partialKeyBits key)

namespace State

/-- The class a bucket in use is labelled with. -/
def occupant (cfg : Config) (s : State) (c : UInt64) : Option (UInt64 × UInt8) :=
  if (s.ht c).isValid then
    some (cfg.originalBucketId c (s.getBucketFillOffset c), s.getPartialKey c)
  else none

/-- A bucket of the table has the record of the class. -/
def Holds (cfg : Config) (s : State) (k : UInt64 × UInt8) (r : PackedItemRecord) : Prop :=
  ∃ c < cfg.totalBuckets, s.occupant cfg c = some k ∧ s.ht c = r

/-- No class has two buckets of the table. -/
def OneBucket (cfg : Config) (s : State) : Prop :=
  ∀ k, ∀ c < cfg.totalBuckets, ∀ c' < cfg.totalBuckets,
    s.occupant cfg c = some k → s.occupant cfg c' = some k → c = c'

/-- No bucket is a block. -/
def Plain (s : State) : Prop := ∀ c, (s.ht c).isCombinedEntry = false

end State

/-- The address a call stored for its key, `some none` if it removed the key, and `none` if
it did neither. -/
def Call.stored (c : Call) : Option (Option UInt32) :=
  match c.op, c.reply with
  | .insert _ address _, _ => some (some address)
  | .insertIfNotExists _ address _, .record none => some (some address)
  | .replaceIfMatch _ newAddress _, .done true => some (some newAddress)
  | .remove _, _ => some none
  | .removeIfMatch _ _, .done true => some none
  | _, _ => none

/-- What was stored last for each class, and not removed since. -/
def lastStored (cfg : Config) (calls : List Call) : UInt64 × UInt8 → Option UInt32 :=
  calls.foldl
    (fun last c =>
      match c.stored with
      | some address => update last (cfg.classOf c.op.key) address
      | none => last)
    fun _ => none

theorem lastStored_concat (calls : List Call) (c : Call) :
    lastStored cfg (calls ++ [c])
      = match c.stored with
        | some address => update (lastStored cfg calls) (cfg.classOf c.op.key) address
        | none => lastStored cfg calls := by
  rw [lastStored, foldl_append]
  rfl

/-! ## Buckets and cells -/

theorem State.Plain.setRecord (h : s.Plain) (c : UInt64)
    (hr : r.isCombinedEntry = false) : (s.setRecord c r).Plain := by
  intro b
  rw [State.setRecord_ht]
  split
  · exact hr
  · exact h b

theorem heldAt_ht {hreg : cfg.Regular} (h : HeldAt hreg.slots s.cells home tag i r) :
    s.getBucketFillOffset (cfg.calcSlotBucketId home i) = i ∧
      s.getPartialKey (cfg.calcSlotBucketId home i) = tag ∧
      s.ht (cfg.calcSlotBucketId home i) = r := by
  obtain ⟨-, -, hcell⟩ := cellOf_eq_some_iff.mp h
  rw [Cell.mk.injEq] at hcell
  exact ⟨hcell.1.symm, hcell.2.1.symm, hcell.2.2.symm⟩

theorem isValid_of_heldAt {hreg : cfg.Regular} (h : HeldAt hreg.slots s.cells home tag i r) :
    r.isValid = true := by
  obtain ⟨hvalid, -, -⟩ := cellOf_eq_some_iff.mp h
  exact (heldAt_ht h).2.2 ▸ hvalid

theorem plain_of_heldAt {hreg : cfg.Regular} (h : HeldAt hreg.slots s.cells home tag i r) :
    (s.ht (cfg.calcSlotBucketId home i)).isCombinedEntry = false :=
  (cellOf_eq_some_iff.mp h).2.1

/-- The label of a bucket is the class of its cell. -/
theorem occupant_eq_some_iff (hreg : cfg.Regular) (hplain : s.Plain) {c : UInt64}
    (hc : c < cfg.totalBuckets) :
    s.occupant cfg c = some (home, tag) ∧ s.ht c = r ↔
      home < cfg.totalBuckets ∧ ∃ i, cfg.calcSlotBucketId home i = c ∧
        HeldAt hreg.slots s.cells home tag i r := by
  constructor
  · rintro ⟨hocc, rfl⟩
    rw [State.occupant, ite_none_right_eq_some, some.injEq, Prod.mk.injEq] at hocc
    obtain ⟨hvalid, rfl, rfl⟩ := hocc
    obtain ⟨horig, hslot⟩ := hreg.slot_orig hc (s.getBucketFillOffset c)
    refine ⟨horig, s.getBucketFillOffset c, hslot, ?_⟩
    change s.cells (cfg.calcSlotBucketId (cfg.originalBucketId c _) _) = _
    rw [hslot]
    exact cellOf_eq_some_iff.mpr ⟨hvalid, hplain c, rfl⟩
  · rintro ⟨hhome, i, rfl, hheld⟩
    obtain ⟨hfill, htag, hr⟩ := heldAt_ht hheld
    have hvalid := isValid_of_heldAt hheld
    have horig : cfg.originalBucketId (cfg.calcSlotBucketId home i) i = home :=
      hreg.slots.orig_slot hhome i
    refine ⟨?_, hr⟩
    rw [State.occupant, hr, if_pos hvalid, hfill, horig, htag]

theorem holds_iff (hreg : cfg.Regular) (hplain : s.Plain) :
    s.Holds cfg (home, tag) r ↔
      home < cfg.totalBuckets ∧ Held hreg.slots s.cells home tag r := by
  constructor
  · rintro ⟨c, hc, hocc⟩
    obtain ⟨hhome, i, -, hheld⟩ := (occupant_eq_some_iff hreg hplain hc).mp hocc
    exact ⟨hhome, i, hheld⟩
  · rintro ⟨hhome, i, hheld⟩
    have hc : cfg.calcSlotBucketId home i < cfg.totalBuckets := hreg.slots.slot_mem hhome i
    exact ⟨_, hc, (occupant_eq_some_iff hreg hplain hc).mpr ⟨hhome, i, rfl, hheld⟩⟩

theorem oneBucket_of_onePlace (hreg : cfg.Regular) (hplain : s.Plain)
    (h : OnePlace hreg.slots s.cells) : s.OneBucket cfg := by
  rintro ⟨home, tag⟩ c hc c' hc' hocc hocc'
  obtain ⟨hhome, i, rfl, hi⟩ := (occupant_eq_some_iff hreg hplain hc).mp ⟨hocc, rfl⟩
  obtain ⟨-, j, rfl, hj⟩ := (occupant_eq_some_iff hreg hplain hc').mp ⟨hocc', rfl⟩
  rw [h home hhome tag i j _ _ hi hj]

/-! ## Effects -/

/-- What a call on a key of class `k` does to the classes. -/
structure Effect (hreg : cfg.Regular) (s s' : State) (k : UInt64 × UInt8)
    (P : PackedItemRecord → Prop) : Prop where
  plain : s'.Plain
  onePlace : OnePlace hreg.slots s'.cells
  others : ∀ home < cfg.totalBuckets, ∀ tag r, (home, tag) ≠ k →
    Held hreg.slots s'.cells home tag r → Held hreg.slots s.cells home tag r
  own : ∀ r, Held hreg.slots s'.cells k.1 k.2 r → P r

/-- The entries are where the code may have moved them, and otherwise as before. -/
structure Rearranged (hreg : cfg.Regular) (s s' : State) : Prop where
  plain : s'.Plain
  onePlace : OnePlace hreg.slots s'.cells
  held_iff : ∀ home < cfg.totalBuckets, ∀ tag r,
    Held hreg.slots s'.cells home tag r ↔ Held hreg.slots s.cells home tag r

variable {hreg : cfg.Regular} {k : UInt64 × UInt8} {P Q : PackedItemRecord → Prop}

theorem Effect.mono (h : Effect hreg s s' k P) (himp : ∀ r, P r → Q r) : Effect hreg s s' k Q :=
  ⟨h.plain, h.onePlace, h.others, fun r hr => himp r (h.own r hr)⟩

theorem Rearranged.effect (h : Rearranged hreg s s') (key : UInt64) :
    Effect hreg s s' (cfg.classOf key)
      fun r => Held hreg.slots s.cells (cfg.bucketId key) (partialKeyBits key) r :=
  ⟨h.plain, h.onePlace, fun home hhome tag r _ => (h.held_iff home hhome tag r).mp,
    fun r => (h.held_iff _ (hreg.bucketId_lt key) _ r).mp⟩

theorem Rearranged.trans_effect {s₁ : State} (h : Rearranged hreg s s₁)
    (h' : Effect hreg s₁ s' k P) : Effect hreg s s' k P := by
  refine ⟨h'.plain, h'.onePlace, ?_, h'.own⟩
  intro home hhome tag r hne hheld
  exact (h.held_iff home hhome tag r).mp (h'.others home hhome tag r hne hheld)

theorem Rearranged.refl (hplain : s.Plain) (h : OnePlace hreg.slots s.cells) :
    Rearranged hreg s s :=
  ⟨hplain, h, fun _ _ _ _ => Iff.rfl⟩

theorem Rearranged.countValid (h : Rearranged hreg s s') (lb : LockedBucket)
    (change : UInt64 → UInt64) : Rearranged hreg s (lb.countValid s' change) :=
  ⟨h.plain, h.onePlace, h.held_iff⟩

theorem effect_of_write (hhome : home < cfg.totalBuckets) (h : OnePlace hreg.slots s.cells)
    (hplain : s'.Plain) (honly: ∀ j w, HeldAt hreg.slots s.cells home tag j w → j = i)
    (hcells : s'.cells
      = update s.cells (cfg.calcSlotBucketId home i) (cellOf r i tag)) :
    Effect hreg s s' (home, tag) (fun r' => r' = r) := by
  refine ⟨hplain, ?_, ?_, ?_⟩
  · rw [hcells]
    exact h.write hhome cellOf_class honly
  · intro home' hhome' tag' w hne hheld
    rw [hcells] at hheld
    exact held_of_held_write hhome cellOf_class hhome' hne hheld
  · intro w hheld
    rw [hcells] at hheld
    have hcell := eq_of_held_write hhome cellOf_class honly hheld
    obtain ⟨-, -, hcell⟩ := cellOf_eq_some_iff.mp hcell
    exact (Cell.mk.inj hcell).2.2

/-! ## Moves -/

/-- **An entry that makes room is neither lost nor doubled nor given to another class.** -/
theorem EmptySlot.rearranged (hplain : s.Plain) (h : OnePlace hreg.slots s.cells) {bid : UInt64}
    (hbid : bid < cfg.totalBuckets) (hempty : EmptySlot cfg s bid s' i) :
    Rearranged hreg s s' := by
  refine ⟨?_, hempty.onePlace hreg hbid h, fun home hhome tag r => hempty.held_iff hreg hbid hhome⟩
  cases hempty with
  | free _ _ => exact hplain
  | moved _ sub c hc hvalid hcombined hoffset hsub hfree =>
      exact (hplain.setRecord _ hcombined).setRecord _ rfl

/-! ## Looking for a key -/

section

variable (hreg) (hno : cfg.handleOverflow = false)

include hno

theorem heldAt_of_check {bid key : UInt64}
    (h : checkBucketSlotOffset cfg s bid key = some i) :
    HeldAt hreg.slots s.cells bid (partialKeyBits key) i (s.ht (cfg.calcSlotBucketId bid i)) := by
  simp only [checkBucketSlotOffset, hno, Bool.false_eq_true, if_false] at h
  have hfound := find?_some h
  exact matchesSlot_iff.mp hfound

theorem not_heldAt_of_check {bid key : UInt64} (h : checkBucketSlotOffset cfg s bid key = none)
    (i : Fin 4) (r : PackedItemRecord) :
    ¬ HeldAt hreg.slots s.cells bid (partialKeyBits key) i r := by
  intro hheld
  simp only [checkBucketSlotOffset, hno, Bool.false_eq_true, if_false] at h
  have hmiss := find?_eq_none.mp h i (mem_slotOffsets i)
  obtain ⟨-, -, hr⟩ := heldAt_ht hheld
  exact hmiss (matchesSlot_iff.mpr (hr ▸ hheld))

/-- The bucket found is that of the key's class. -/
theorem lockExisting_cases (hplain : s.Plain) (key : UInt64) :
    (lockExisting cfg s key = ⟨key, cfg.shardId (cfg.bucketId key), none, {}⟩ ∧
        ∀ i r, ¬ HeldAt hreg.slots s.cells (cfg.bucketId key) (partialKeyBits key) i r) ∨
      ∃ i c, c = cfg.calcSlotBucketId (cfg.bucketId key) i ∧
        lockExisting cfg s key = ⟨key, cfg.shardId (cfg.bucketId key), some (i, c), s.ht c⟩ ∧
        HeldAt hreg.slots s.cells (cfg.bucketId key) (partialKeyBits key) i (s.ht c) := by
  rcases hcheck : checkBucketSlotOffset cfg s (cfg.bucketId key) key with _ | i
  · refine Or.inl ⟨?_, not_heldAt_of_check hreg hno hcheck⟩
    rw [lockExisting, hcheck]
    rfl
  · refine Or.inr ⟨i, _, rfl, ?_, heldAt_of_check hreg hno hcheck⟩
    rw [lockExisting, hcheck, lockedBucket]
    simp [recordAt, hplain (cfg.calcSlotBucketId (cfg.bucketId key) i)]

section Effects

variable (hplain : s.Plain) (h : OnePlace hreg.slots s.cells)

include hplain h

theorem decide_spec
    (retrieveKey : UInt32 → Option UInt64) {bid : UInt64} (hbid : bid < cfg.totalBuckets)
    (key : UInt64)
    (hdecided : decideBucketSlotOffset cfg s retrieveKey bid key = (s', i)) :
    Rearranged hreg s s' ∧
      ∀ j w, HeldAt hreg.slots s'.cells bid (partialKeyBits key) j w → j = i := by
  have hcases := decided cfg s retrieveKey bid key
  rw [hdecided] at hcases
  cases hcases with
  | existing _ hfound =>
      refine ⟨Rearranged.refl hplain h, ?_⟩
      intro j w hj
      exact h bid hbid _ _ _ _ _ hj (heldAt_of_check hreg hno hfound)
  | room _ _ hnew hroom =>
      have hmade := (findOrMakeEmptySlot_some hroom).1.rearranged hplain h hbid
      refine ⟨hmade, ?_⟩
      intro j w hj
      obtain ⟨j', hj'⟩ := (hmade.held_iff bid hbid _ w).mp ⟨j, hj⟩
      exact absurd hj' (not_heldAt_of_check hreg hno hnew j' w)
  | combined _ _ _ hoverflow _ => exact absurd hoverflow (by simp [hno])
  | created _ _ _ _ _ hoverflow _ _ => exact absurd hoverflow (by simp [hno])
  | replaced hnew _ _ =>
      refine ⟨Rearranged.refl hplain h, ?_⟩
      intro j w hj
      exact absurd hj (not_heldAt_of_check hreg hno hnew j w)

theorem lockForInsert_cases
    (retrieveKey : UInt32 → Option UInt64) (key : UInt64) :
    ∃ s₁ i c, c = cfg.calcSlotBucketId (cfg.bucketId key) i ∧
      lockForInsert cfg s retrieveKey key
        = (s₁, ⟨key, cfg.shardId (cfg.bucketId key), some (i, c), s₁.ht c⟩) ∧
      Rearranged hreg s s₁ ∧
      ∀ j w, HeldAt hreg.slots s₁.cells (cfg.bucketId key) (partialKeyBits key) j w → j = i := by
  rcases hdecided : decideBucketSlotOffset cfg s retrieveKey (cfg.bucketId key) key with ⟨s₁, i⟩
  obtain ⟨hmade, honly⟩ :=
    decide_spec hreg hno hplain h retrieveKey (hreg.bucketId_lt key) key hdecided
  refine ⟨s₁, i, _, rfl, ?_, hmade, honly⟩
  simp only [lockForInsert, hdecided, lockedBucket, recordAt, hmade.plain _, Bool.not_false, if_true]

/-! ## The operations -/

omit hno in
/-- A locked bucket is written. -/
theorem effect_updateRecord
    {key sid c : UInt64} {old r : PackedItemRecord}
    (hc : c = cfg.calcSlotBucketId (cfg.bucketId key) i)
    (honly : ∀ j w, HeldAt hreg.slots s.cells (cfg.bucketId key) (partialKeyBits key) j w → j = i)
    (hr : r.isCombinedEntry = false) :
    Effect hreg s (LockedBucket.updateRecord ⟨key, sid, some (i, c), old⟩ s r) (cfg.classOf key)
      (fun r' => r' = r) := by
  subst hc
  simp only [LockedBucket.updateRecord, hplain _, Bool.not_false, if_true]
  refine effect_of_write (hreg.bucketId_lt key) h ?_ honly (State.cells_setEntry _ _ _ _)
  exact hplain.setRecord _ hr

omit hno hplain h in
theorem effect_store {s₁ : State} (hmade : Rearranged hreg s s₁) {key sid c : UInt64}
    {old : PackedItemRecord} {address : UInt32} {sizeHint : UInt16}
    (hc : c = cfg.calcSlotBucketId (cfg.bucketId key) i)
    (honly : ∀ j w, HeldAt hreg.slots s₁.cells (cfg.bucketId key) (partialKeyBits key) j w → j = i) :
    Effect hreg s (LockedBucket.updateRecord ⟨key, sid, some (i, c), old⟩ s₁
      (PackedItemRecord.make address sizeHint 0)) (cfg.classOf key) fun r => r.address = address := by
  refine (hmade.trans_effect (effect_updateRecord hreg hmade.plain hmade.onePlace hc honly
    (PackedItemRecord.make_isCombinedEntry address sizeHint 0))).mono ?_
  rintro r rfl
  rfl

omit hno in
theorem effect_setRecord
    {key c : UInt64} {old r : PackedItemRecord}
    (hc : c = cfg.calcSlotBucketId (cfg.bucketId key) i)
    (hheld : HeldAt hreg.slots s.cells (cfg.bucketId key) (partialKeyBits key) i old)
    (hr : r.isCombinedEntry = false) :
    Effect hreg s (s.setRecord c r) (cfg.classOf key) (fun r' => r' = r) := by
  subst hc
  obtain ⟨hfill, htag, -⟩ := heldAt_ht hheld
  refine effect_of_write (hreg.bucketId_lt key) h (hplain.setRecord _ hr) ?_ ?_ (i := i)
  · intro j w hj
    exact h _ (hreg.bucketId_lt key) _ _ _ _ _ hj hheld
  · rw [State.cells_setRecord, hfill, htag]

theorem effect_lookup (key : UInt64) :
    Effect hreg s (lookup cfg s key).1 (cfg.classOf key) fun r =>
      ∃ r₀, Held hreg.slots s.cells (cfg.bucketId key) (partialKeyBits key) r₀ ∧
        r₀.address = r.address := by
  rcases lockExisting_cases hreg hno hplain key with ⟨hlock, -⟩ | ⟨i, c, hc, hlock, hheld⟩
  · simp only [lookup, hlock]
    refine ((Rearranged.refl hplain h).effect key).mono ?_
    exact fun r hr => ⟨r, hr, rfl⟩
  · simp only [lookup, hlock, isValid_of_heldAt hheld, if_true, LockedBucket.bumpCurRecordHits]
    refine (effect_setRecord hreg hplain h hc hheld ?_).mono ?_
    · exact hplain c
    · rintro r rfl
      exact ⟨s.ht c, ⟨i, hheld⟩, rfl⟩

theorem effect_insert
    (retrieveKey : UInt32 → Option UInt64) (key : UInt64) (address : UInt32) (sizeHint : UInt16) :
    Effect hreg s (insert cfg s retrieveKey key address sizeHint).1 (cfg.classOf key)
      fun r => r.address = address := by
  obtain ⟨s₁, i, c, hc, hlock, hmade, honly⟩ := lockForInsert_cases hreg hno hplain h retrieveKey key
  simp only [insert, hlock]
  split
  · exact effect_store hreg hmade hc honly
  · exact effect_store hreg (hmade.countValid _ _) hc honly

theorem effect_insertIfNotExists
    (retrieveKey : UInt32 → Option UInt64) (key : UInt64) (address : UInt32) (sizeHint : UInt16) :
    Effect hreg s (insertIfNotExists cfg s retrieveKey key address sizeHint).1 (cfg.classOf key)
      fun r => if (insertIfNotExists cfg s retrieveKey key address sizeHint).2 = none
        then r.address = address
        else Held hreg.slots s.cells (cfg.bucketId key) (partialKeyBits key) r := by
  obtain ⟨s₁, i, c, hc, hlock, hmade, honly⟩ := lockForInsert_cases hreg hno hplain h retrieveKey key
  simp only [insertIfNotExists, hlock]
  split
  · simpa using hmade.effect key
  · simpa using effect_store hreg (hmade.countValid _ _) hc honly

theorem effect_replaceIfMatch
    (key : UInt64) (newAddress oldAddress : UInt32) :
    Effect hreg s (replaceIfMatch cfg s key newAddress oldAddress).1 (cfg.classOf key)
      fun r => if (replaceIfMatch cfg s key newAddress oldAddress).2
        then r.address = newAddress
        else Held hreg.slots s.cells (cfg.bucketId key) (partialKeyBits key) r := by
  have hsame := (Rearranged.refl hplain h).effect key
  rcases lockExisting_cases hreg hno hplain key with ⟨hlock, -⟩ | ⟨i, c, hc, hlock, hheld⟩
  · simpa [replaceIfMatch, hlock, PackedItemRecord.isValid] using hsame
  · by_cases hmatch : (s.ht c).address = oldAddress
    · have hwrite := effect_setRecord hreg hplain h hc hheld
        (r := { s.ht c with address := newAddress, curHits := 0 }) (hplain c)
      simp only [replaceIfMatch, hlock, isValid_of_heldAt hheld, hmatch, decide_true, Bool.and_self,
        if_true, LockedBucket.updateNewAddress, hplain c, Bool.not_false]
      exact hwrite.mono fun r hr => hr ▸ rfl
    · simpa [replaceIfMatch, hlock, hmatch] using hsame

omit hno in
/-- A bucket of the key's class is emptied. -/
theorem effect_clear
    {key c : UInt64} {old : PackedItemRecord}
    (hc : c = cfg.calcSlotBucketId (cfg.bucketId key) i)
    (hheld : HeldAt hreg.slots s.cells (cfg.bucketId key) (partialKeyBits key) i old) :
    Effect hreg s (s.setRecord c {}) (cfg.classOf key) fun _ => False := by
  have hwrite := effect_setRecord hreg hplain h hc hheld (r := {}) rfl
  refine ⟨hwrite.plain, hwrite.onePlace, hwrite.others, ?_⟩
  rintro r ⟨j, hj⟩
  obtain rfl := hwrite.own r ⟨j, hj⟩
  exact absurd (isValid_of_heldAt hj) (by decide)

theorem effect_remove (key : UInt64) :
    Effect hreg s (remove cfg s key).1 (cfg.classOf key) fun _ => False := by
  rcases lockExisting_cases hreg hno hplain key with ⟨hlock, hmiss⟩ | ⟨i, c, hc, hlock, hheld⟩
  · simp only [remove, hlock]
    refine ((Rearranged.refl hplain h).effect key).mono ?_
    rintro r ⟨i, hi⟩
    exact hmiss i r hi
  · have hclear := effect_clear hreg hplain h hc hheld
    simp only [remove, hlock, isValid_of_heldAt hheld, if_true, LockedBucket.removeRecord,
      LockedBucket.countValid, hplain c, Bool.not_false]
    exact ⟨hclear.plain, hclear.onePlace, hclear.others, hclear.own⟩

theorem effect_removeIfMatch
    (key : UInt64) (address : UInt32) :
    Effect hreg s (removeIfMatch cfg s key address).1 (cfg.classOf key)
      fun r => if (removeIfMatch cfg s key address).2 then False
        else Held hreg.slots s.cells (cfg.bucketId key) (partialKeyBits key) r := by
  have hsame := (Rearranged.refl hplain h).effect key
  rcases lockExisting_cases hreg hno hplain key with ⟨hlock, -⟩ | ⟨i, c, hc, hlock, hheld⟩
  · simpa [removeIfMatch, hlock, PackedItemRecord.isValid] using hsame
  · by_cases hmatch : (s.ht c).address = address
    · have hclear := effect_clear hreg hplain h hc hheld
      simp only [removeIfMatch, hlock, isValid_of_heldAt hheld, hmatch, decide_true, Bool.and_self,
        if_true, LockedBucket.removeRecord, LockedBucket.countValid, hplain c, Bool.not_false]
      exact ⟨hclear.plain, hclear.onePlace, hclear.others, hclear.own⟩
    · simpa [removeIfMatch, hlock, hmatch] using hsame

/-- **What a call does to the classes**: for that of its key, what it says it stored, and
otherwise nothing new. -/
theorem effect_of_step {c : Call}
    (hstep : step cfg s c = some s') :
    Effect hreg s s' (cfg.classOf c.op.key) fun r =>
      match c.stored with
      | some address => address = some r.address
      | none => ∃ r₀, Held hreg.slots s.cells (cfg.bucketId c.op.key) (partialKeyBits c.op.key) r₀ ∧
          r₀.address = r.address := by
  obtain ⟨op, retrieveKey, reply⟩ := c
  simp only [step, ite_none_right_eq_some, some.injEq] at hstep
  obtain ⟨rfl, rfl⟩ := hstep
  cases op with
  | lookup key => exact effect_lookup hreg hno hplain h key
  | insert key address sizeHint =>
      refine (effect_insert hreg hno hplain h retrieveKey key address sizeHint).mono ?_
      rintro r rfl
      rfl
  | insertIfNotExists key address sizeHint =>
      refine (effect_insertIfNotExists hreg hno hplain h retrieveKey key address sizeHint).mono ?_
      intro r hr
      simp only [Call.stored, perform, Prod.map]
      rcases hreply : (insertIfNotExists cfg s retrieveKey key address sizeHint).2 with _ | found
      · rw [if_pos hreply] at hr
        rw [hr]
      · rw [if_neg (by simp [hreply])] at hr
        exact ⟨r, hr, rfl⟩
  | replaceIfMatch key newAddress oldAddress =>
      refine (effect_replaceIfMatch hreg hno hplain h key newAddress oldAddress).mono ?_
      intro r hr
      simp only [Call.stored, perform, Prod.map]
      rcases hreply : (replaceIfMatch cfg s key newAddress oldAddress).2 with _ | _
      · rw [if_neg (by simp [hreply])] at hr
        exact ⟨r, hr, rfl⟩
      · rw [if_pos hreply] at hr
        rw [hr]
  | remove key =>
      exact (effect_remove hreg hno hplain h key).mono fun _ hr => hr.elim
  | removeIfMatch key address =>
      refine (effect_removeIfMatch hreg hno hplain h key address).mono ?_
      intro r hr
      simp only [Call.stored, perform, Prod.map]
      rcases hreply : (removeIfMatch cfg s key address).2 with _ | _
      · rw [if_neg (by simp [hreply])] at hr
        exact ⟨r, hr, rfl⟩
      · rw [if_pos hreply] at hr
        exact hr.elim

end Effects

/-! ## Runs -/

/-- What holds of the index after the calls. -/
structure KeepsLast (hreg : cfg.Regular) (calls : List Call) (s : State) : Prop where
  plain : s.Plain
  onePlace : OnePlace hreg.slots s.cells
  last : ∀ home < cfg.totalBuckets, ∀ tag r, Held hreg.slots s.cells home tag r →
    lastStored cfg calls (home, tag) = some r.address

omit hno in
theorem keepsLast_nil : KeepsLast hreg [] {} := by
  refine ⟨fun _ => rfl, onePlace_empty, ?_⟩
  rintro home - tag r ⟨i, hi⟩
  have hvalid := isValid_of_heldAt hi
  rw [← (heldAt_ht hi).2.2] at hvalid
  exact absurd hvalid Bool.false_ne_true

theorem keepsLast_step {calls : List Call} {c : Call} (hinv : KeepsLast hreg calls s)
    (hstep : step cfg s c = some s') : KeepsLast hreg (calls ++ [c]) s' := by
  have heffect := effect_of_step hreg hno hinv.plain hinv.onePlace hstep
  refine ⟨heffect.plain, heffect.onePlace, ?_⟩
  intro home hhome tag r hheld
  rw [lastStored_concat]
  by_cases hclass : (home, tag) = cfg.classOf c.op.key
  · obtain ⟨rfl, rfl⟩ := Prod.mk.inj hclass
    have hown := heffect.own r hheld
    rcases hstored : c.stored with _ | address
    · rw [hstored] at hown
      obtain ⟨r₀, hr₀, haddress⟩ := hown
      exact haddress ▸ hinv.last _ hhome _ r₀ hr₀
    · rw [hstored] at hown
      simp only [hclass, update_self]
      exact hown
  · have hold := hinv.last home hhome tag r (heffect.others home hhome tag r hclass hheld)
    rcases c.stored with _ | address
    · exact hold
    · simp only [update_of_ne hclass]
      exact hold

theorem keepsLast_of_run {calls : List Call} (hrun : exec (step cfg) {} calls = some s) :
    KeepsLast hreg calls s := by
  have hkeep : ∀ past s c t, KeepsLast hreg past s → True → step cfg s c = some t →
      KeepsLast hreg (past ++ [c]) t :=
    fun past s c t hinv _ hstep => keepsLast_step hreg hno hinv hstep
  exact exec_invariant_history hkeep hrun (Along.of_forall fun _ _ _ => trivial)
    (keepsLast_nil hreg)

theorem address_of_lookup {key : UInt64} {r : ItemRecord} (hplain : s.Plain)
    (hfound : (lookup cfg s key).2 = some r) :
    ∃ r₀, Held hreg.slots s.cells (cfg.bucketId key) (partialKeyBits key) r₀ ∧
      r₀.address = r.address := by
  rcases lockExisting_cases hreg hno hplain key with ⟨hlock, -⟩ | ⟨i, c, hc, hlock, hheld⟩
  · simp [lookup, hlock, PackedItemRecord.isValid] at hfound
  · simp only [lookup, hlock, isValid_of_heldAt hheld, if_true, some.injEq] at hfound
    exact ⟨s.ht c, ⟨i, hheld⟩, congrArg ItemRecord.address hfound⟩

end

/-- **An index without overflow handling keeps the classes of its keys apart.** A class has
at most one bucket; entries that are moved to make room keep their records; and a lookup
finds nothing or the address stored last for the class of its key. -/
theorem classes_kept_apart (hreg : cfg.Regular) (hno : cfg.handleOverflow = false)
    {calls : List Call} (hrun : exec (step cfg) {} calls = some s) :
    s.OneBucket cfg ∧
    (∀ key s' i, findOrMakeEmptySlotByMoving cfg s (cfg.bucketId key) = some (s', i) →
      s'.OneBucket cfg ∧ ∀ k r, s'.Holds cfg k r ↔ s.Holds cfg k r) ∧
    ∀ key r, (lookup cfg s key).2 = some r →
      lastStored cfg calls (cfg.classOf key) = some r.address := by
  have hinv := keepsLast_of_run hreg hno hrun
  refine ⟨oneBucket_of_onePlace hreg hinv.plain hinv.onePlace, ?_, ?_⟩
  · intro key s' i hmoved
    have hmade := (findOrMakeEmptySlot_some hmoved).1.rearranged hinv.plain hinv.onePlace
      (hreg.bucketId_lt key)
    refine ⟨oneBucket_of_onePlace hreg hmade.plain hmade.onePlace, ?_⟩
    rintro ⟨home, tag⟩ r
    rw [holds_iff hreg hmade.plain, holds_iff hreg hinv.plain]
    exact and_congr_right fun hhome => hmade.held_iff home hhome tag r
  · intro key r hfound
    obtain ⟨r₀, hheld, haddress⟩ := address_of_lookup hreg hno hinv.plain hfound
    exact haddress ▸ hinv.last _ (hreg.bucketId_lt key) _ r₀ hheld

theorem largerMutex_regular (useCombinedEntryBlock : Bool) :
    (createIndex largerMutex useCombinedEntryBlock).Regular := by
  refine ⟨accepted_of_validate useCombinedEntryBlock rfl rfl, ?_, 8, by decide +revert⟩
  show ∀ i, kNextSlotOffset i < 128
  decide

/-- Two keys with the home 410 and different bits, and one with the home 433. -/
def movingRun : List Call :=
  [{ op := .insert 0 10 100, reply := .record none },
   { op := .insert 0x10000000000 11 100, reply := .record none },
   { op := .insert 23 12 100, reply := .record none }]

/-- The second entry is first in bucket 433, a slot of its home, and then makes room there. -/
theorem classes_kept_apart_movingRun :
    ∃ s, exec (step (createIndex largerMutex false)) {} movingRun = some s ∧
      s.occupant (createIndex largerMutex false) 471 = some (410, 1) ∧
      s.OneBucket (createIndex largerMutex false) ∧
      lastStored (createIndex largerMutex false) movingRun (410, 1) = some 11 := by
  obtain ⟨s, hs, hmoved, hfound⟩ :
      ∃ s, exec (step (createIndex largerMutex false)) {} movingRun = some s ∧
        s.occupant (createIndex largerMutex false) 471 = some (410, 1) ∧
        (lookup (createIndex largerMutex false) s 0x10000000000).2 = some ⟨11, 104, 1⟩ := by
    decide +kernel
  obtain ⟨hone, -, hlast⟩ := classes_kept_apart (largerMutex_regular false) rfl hs
  have hclass : (createIndex largerMutex false).classOf 0x10000000000 = (410, 1) := by decide
  exact ⟨s, hs, hmoved, hone, hclass ▸ hlast 0x10000000000 _ hfound⟩

end CacheLib.Navy.FixedSizeIndex
