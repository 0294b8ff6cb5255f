/-
Keys of a `FixedSizeIndex` with overflow handling do not get into each other's way.

A key is stored in a bucket of its own, under its class, or in the block of one of its
slots, under itself. An insert that finds no room makes a block of the home bucket, whose
entry belongs to another key: the callback has to tell which. As long as the keys in use
have different classes and the callback knows the keys of the entries, every key is stored
in one place at most (`KeysApart`), and an operation on a key leaves the records of all
others.
-/
import CacheLib.Navy.IndexClasses
import CacheLib.Navy.IndexInsert
import Mathlib.Order.BooleanAlgebra.Set

set_option autoImplicit false

namespace CacheLib.Navy.FixedSizeIndex

open SlotTable Transition Option Function

variable {cfg : Config}

/-! ## Where a key is stored -/

/-- The key has a bucket of its own. -/
def InCell (hreg : cfg.Regular) (s : State) (key : UInt64) (r : PackedItemRecord) : Prop :=
  Held hreg.slots s.cells (cfg.bucketId key) (partialKeyBits key) r

/-- The key is in the block of a slot. -/
def InBlock (cfg : Config) (s : State) (key c : UInt64) (r : PackedItemRecord) : Prop :=
  (∃ i, cfg.calcSlotBucketId (cfg.bucketId key) i = c) ∧ (s.ht c).isCombinedEntry = true ∧
    ∃ block, s.combinedEntries (cfg.shardId c) c = some block ∧ block.getIndexEntry key = some r

def Stored (hreg : cfg.Regular) (s : State) (key : UInt64) (r : PackedItemRecord) : Prop :=
  InCell hreg s key r ∨ ∃ c, InBlock cfg s key c r

/-- The buckets in use are those of keys in `K`, and none of these is stored twice. -/
structure KeysApart (hreg : cfg.Regular) (K : Set UInt64) (s : State) : Prop where
  sound : s.BlocksSound cfg
  onePlace : OnePlace hreg.slots s.cells
  cell : ∀ home < cfg.totalBuckets, ∀ tag r, Held hreg.slots s.cells home tag r →
    ∃ key ∈ K, cfg.classOf key = (home, tag)
  not_both : ∀ key ∈ K, ∀ c r r', InBlock cfg s key c r → ¬ InCell hreg s key r'
  oneBlock : ∀ key c c' r r', InBlock cfg s key c r → InBlock cfg s key c' r' → c = c'

/-- The keys in `A` have the records they had. -/
def SameFor (hreg : cfg.Regular) (A : Set UInt64) (s s' : State) : Prop :=
  ∀ key ∈ A, ∀ r, Stored hreg s' key r ↔ Stored hreg s key r

/-- The place for a key, if slot `i` is bucket `c`: what is in the bucket is its own, and the key is
nowhere else. -/
inductive Place (hreg : cfg.Regular) (s : State) (key : UInt64) (i : Fin 4) (c : UInt64) : Prop
  | own (hplain : (s.ht c).isCombinedEntry = false)
      (howner : ∀ x, s.cells c = some x → x.offset = i ∧ x.tag = partialKeyBits key)
      (honly : ∀ j w, HeldAt hreg.slots s.cells (cfg.bucketId key) (partialKeyBits key) j w → j = i)
      (hblock : ∀ b w, ¬ InBlock cfg s key b w)
  | block (hcombined : (s.ht c).isCombinedEntry = true) (hcell : ∀ w, ¬ InCell hreg s key w)
      (honly : ∀ b w, InBlock cfg s key b w → b = c)

variable {hreg : cfg.Regular} {K : Set UInt64} {s s' : State} {key c : UInt64} {i : Fin 4}

theorem SameFor.refl (hreg : cfg.Regular) (A : Set UInt64) (s : State) : SameFor hreg A s s :=
  fun _ _ _ => Iff.rfl

theorem SameFor.trans {A B : Set UInt64} {s₁ : State} (h : SameFor hreg A s s₁)
    (h' : SameFor hreg B s₁ s') (hsub : B ⊆ A) : SameFor hreg B s s' :=
  fun k hk r => (h' k hk r).trans (h k (hsub hk) r)

theorem inBlock_congr (cfg : Config)
    (hcombined : ∀ b, (s'.ht b).isCombinedEntry = (s.ht b).isCombinedEntry)
    (hentries : s'.combinedEntries = s.combinedEntries) (key c : UInt64) (r : PackedItemRecord) :
    InBlock cfg s' key c r ↔ InBlock cfg s key c r := by
  unfold InBlock
  rw [hcombined, hentries]

theorem liveAt_iff_inBlock (hreg : cfg.Regular) :
    liveAt cfg s key i = true ↔
      ∃ r, InBlock cfg s key (cfg.calcSlotBucketId (cfg.bucketId key) i) r := by
  have hsid := hreg.accepted.shardId_calcSlotBucketId (hreg.bucketId_lt key) i
  rw [liveAt_eq_true_iff]
  constructor
  · rintro ⟨hcombined, block, hblock, hpeek⟩
    rw [CombinedEntryBlock.peekIndexEntry_eq, isSome_iff_exists] at hpeek
    obtain ⟨r, hr⟩ := hpeek
    exact ⟨r, ⟨i, rfl⟩, hcombined, block, hsid ▸ hblock, hr⟩
  · rintro ⟨r, -, hcombined, block, hblock, hr⟩
    refine ⟨hcombined, block, hsid ▸ hblock, ?_⟩
    rw [CombinedEntryBlock.peekIndexEntry_eq, hr]
    rfl

/-- A key that is not found is not stored. -/
theorem not_stored_of_check (hreg : cfg.Regular) (hoverflow : cfg.handleOverflow = true)
    (h : checkBucketSlotOffset cfg s (cfg.bucketId key) key = none) :
    (∀ r, ¬ InCell hreg s key r) ∧ ∀ b r, ¬ InBlock cfg s key b r := by
  obtain ⟨hlive, hmatch⟩ := (check_eq_none_iff hreg.accepted).mp h
  constructor
  · rintro r ⟨i, hi⟩
    have hr := (heldAt_ht hi).2.2
    exact absurd (matchesSlot_iff.mpr (hr ▸ hi)) (by simp [hmatch i])
  · rintro b r hb
    obtain ⟨i, rfl⟩ := hb.1
    exact absurd ((liveAt_iff_inBlock hreg).mpr ⟨r, hb⟩) (by simp [hlive hoverflow i])

section Apart

variable (h : KeysApart hreg K s)

include h

/-- A key that is found is in its place. -/
theorem place_of_check (hoverflow : cfg.handleOverflow = true)
    (hkey : key ∈ K) (hcheck : checkBucketSlotOffset cfg s (cfg.bucketId key) key = some i) :
    Place hreg s key i (cfg.calcSlotBucketId (cfg.bucketId key) i) := by
  rcases (check_eq_some_iff hreg.accepted).mp hcheck with ⟨-, hlive, -⟩ | ⟨hnone, hmatch, -⟩
  · obtain ⟨r, hr⟩ := (liveAt_iff_inBlock hreg).mp hlive
    exact .block hr.2.1 (fun w => h.not_both key hkey _ r w hr)
      fun b w hb => h.oneBlock key b _ w r hb hr
  · have hheld : HeldAt hreg.slots s.cells (cfg.bucketId key) (partialKeyBits key) i _ :=
      matchesSlot_iff.mp hmatch
    refine .own (plain_of_heldAt hheld) ?_ ?_ ?_
    · intro x hx
      rw [matchesSlot_iff.mp hmatch, some.injEq] at hx
      subst hx
      exact ⟨rfl, rfl⟩
    · exact fun j w hj => h.onePlace _ (hreg.bucketId_lt key) _ _ _ _ _ hj hheld
    · rintro b w hb
      obtain ⟨j, rfl⟩ := hb.1
      exact absurd ((liveAt_iff_inBlock hreg).mpr ⟨w, hb⟩) (by simp [hnone hoverflow j])

/-- What `peek` finds is what is stored. -/
theorem peek_iff_stored (hoverflow : cfg.handleOverflow = true)
    (hkey : key ∈ K) (address : UInt32) :
    (∃ r, peek cfg s key = some r ∧ r.address = address) ↔
      address ≠ 0 ∧ ∃ r, Stored hreg s key r ∧ r.address = address := by
  have hsid := fun i => hreg.accepted.shardId_calcSlotBucketId (hreg.bucketId_lt key) i
  constructor
  · rintro ⟨r, hpeek, rfl⟩
    refine ⟨address_ne_zero_of_peek hpeek, ?_⟩
    rcases hcheck : checkBucketSlotOffset cfg s (cfg.bucketId key) key with _ | i
    · exact absurd hpeek (by simp [peek_of_check_none hcheck])
    rw [peek_of_check_some hcheck, ite_none_right_eq_some, some.injEq] at hpeek
    obtain ⟨-, rfl⟩ := hpeek
    rcases (check_eq_some_iff hreg.accepted).mp hcheck with ⟨-, hlive, -⟩ | ⟨-, hmatch, -⟩
    · obtain ⟨r, hr⟩ := (liveAt_iff_inBlock hreg).mp hlive
      have hin := hr
      obtain ⟨-, hcombined, block, hblock, hentry⟩ := hr
      rw [hsid] at hblock
      rw [recordAt_of_block_some hcombined hblock hentry]
      exact ⟨r, Or.inr ⟨_, hin⟩, rfl⟩
    · have hheld : HeldAt hreg.slots s.cells (cfg.bucketId key) (partialKeyBits key) i _ :=
        matchesSlot_iff.mp hmatch
      refine ⟨_, Or.inl ⟨i, hheld⟩, ?_⟩
      rw [recordAt_of_plain (plain_of_heldAt hheld)]
      rfl
  · rintro ⟨haddress, r, ⟨i, hheld⟩ | ⟨c, hin⟩, rfl⟩
    · refine ⟨r.toItemRecord, ?_, rfl⟩
      have hmatch : ∀ j, matchesSlot cfg s (cfg.bucketId key) key j = true → j = i := fun j hj =>
        h.onePlace _ (hreg.bucketId_lt key) _ _ _ _ _ (matchesSlot_iff.mp hj) hheld
      have hr := (heldAt_ht hheld).2.2
      rw [peek_of_own_bucket hreg.accepted (i := i) ?_ (matchesSlot_iff.mpr (hr ▸ hheld)) ?_, hr]
      · intro _ j
        by_contra hlive
        rw [Bool.not_eq_false] at hlive
        obtain ⟨w, hw⟩ := (liveAt_iff_inBlock hreg).mp hlive
        exact h.not_both key hkey _ w r hw ⟨i, hheld⟩
      · intro j hj
        by_contra hmatch'
        rw [Bool.not_eq_false] at hmatch'
        exact absurd (hmatch j hmatch') hj.ne
    · have hin' := hin
      obtain ⟨⟨i, rfl⟩, hcombined, block, hblock, hentry⟩ := hin
      refine peek_of_block hreg.accepted hoverflow rfl hcombined (hsid i ▸ hblock) hentry haddress ?_
      intro j _ hne
      by_contra hlive
      rw [Bool.not_eq_false] at hlive
      obtain ⟨w, hw⟩ := (liveAt_iff_inBlock hreg).mp hlive
      exact hne (h.oneBlock key _ _ w r hw hin')

/-! ## Writes

Each of the following is a change of the index that leaves the records of all keys in `K`
but one, or of all, and keeps them apart. -/

/-- Nothing changes but hit counts. -/
theorem apart_of_same (hcells : s'.cells = s.cells)
    (hcombined : ∀ b, (s'.ht b).isCombinedEntry = (s.ht b).isCombinedEntry)
    (hentries : s'.combinedEntries = s.combinedEntries) (hsound : s'.BlocksSound cfg)
    (A : Set UInt64) : KeysApart hreg K s' ∧ SameFor hreg A s s' := by
  have hin := inBlock_congr cfg hcombined hentries
  have hcell : ∀ k w, InCell hreg s' k w ↔ InCell hreg s k w := by
    intro k w
    rw [InCell, InCell, hcells]
  refine ⟨⟨hsound, hcells ▸ h.onePlace, hcells ▸ h.cell, ?_, ?_⟩, ?_⟩
  · intro k hk b w w' hb hw
    exact h.not_both k hk b w w' ((hin k b w).mp hb) ((hcell k w').mp hw)
  · intro k b b' w w' hb hb'
    exact h.oneBlock k b b' w w' ((hin k b w).mp hb) ((hin k b' w').mp hb')
  · intro k _ w
    simp only [Stored, hin, hcell]

/-- A bucket is written which is the place of the key. -/
theorem apart_of_write (hK : Set.InjOn cfg.classOf K) (hkey : key ∈ K)
    (hc : c = cfg.calcSlotBucketId (cfg.bucketId key) i)
    (howner : ∀ x, s.cells c = some x → x.offset = i ∧ x.tag = partialKeyBits key)
    (honly : ∀ j w, HeldAt hreg.slots s.cells (cfg.bucketId key) (partialKeyBits key) j w → j = i)
    (hblock : ∀ b w, ¬ InBlock cfg s key b w) {r : PackedItemRecord}
    (hcells : s'.cells = update s.cells c (cellOf r i (partialKeyBits key)))
    (hcombined : ∀ b, (s'.ht b).isCombinedEntry = (s.ht b).isCombinedEntry)
    (hentries : s'.combinedEntries = s.combinedEntries) (hsound : s'.BlocksSound cfg) :
    KeysApart hreg K s' ∧ SameFor hreg (K \ {key}) s s' := by
  subst hc
  have hhome : hreg.slots.mem (cfg.bucketId key) := hreg.bucketId_lt key
  have hin := inBlock_congr cfg hcombined hentries
  have hcell : ∀ k ∈ K, k ≠ key → ∀ w, InCell hreg s' k w ↔ InCell hreg s k w := by
    intro k hk hne w
    rw [InCell, InCell, hcells]
    exact held_write_iff hhome cellOf_class (hreg.bucketId_lt k)
      (fun hclass => hne (hK hk hkey hclass)) howner
  refine ⟨⟨hsound, ?_, ?_, ?_, ?_⟩, ?_⟩
  · rw [hcells]
    exact h.onePlace.write hhome cellOf_class honly
  · intro home hmem tag w hheld
    by_cases hclass : (home, tag) = cfg.classOf key
    · exact ⟨key, hkey, hclass.symm⟩
    · rw [hcells] at hheld
      exact h.cell home hmem tag w (held_of_held_write hhome cellOf_class hmem hclass hheld)
  · intro k hk b w w' hb hw
    rw [hin] at hb
    by_cases heq : k = key
    · exact hblock b w (heq ▸ hb)
    · exact h.not_both k hk b w w' hb ((hcell k hk heq w').mp hw)
  · intro k b b' w w' hb hb'
    exact h.oneBlock k b b' w w' ((hin k b w).mp hb) ((hin k b' w').mp hb')
  · rintro k ⟨hk, hne⟩ w
    simp only [Stored, hin, hcell k hk hne]

/-- A block is written at the key, for which it is the place. -/
theorem apart_of_setBlock (hc : c = cfg.calcSlotBucketId (cfg.bucketId key) i)
    (hcombined : (s.ht c).isCombinedEntry = true) (hcell : ∀ w, ¬ InCell hreg s key w)
    (honly : ∀ b w, InBlock cfg s key b w → b = c) {block block' : CombinedEntryBlock}
    (hblock : s.combinedEntries (cfg.shardId c) c = some block)
    (hothers : ∀ k, k ≠ key → block'.getIndexEntry k = block.getIndexEntry k) :
    KeysApart hreg K (s.setBlock (cfg.shardId c) c block') ∧
      SameFor hreg (K \ {key}) s (s.setBlock (cfg.shardId c) c block') := by
  have hin : ∀ k, k ≠ key → ∀ b w,
      InBlock cfg (s.setBlock (cfg.shardId c) c block') k b w ↔ InBlock cfg s k b w := by
    intro k hne b w
    refine and_congr_right fun _ => and_congr_right fun _ => ?_
    by_cases hb : b = c
    · subst hb
      simp only [State.setBlock_self, hblock, some.injEq, exists_eq_left', hothers k hne]
    · simp only [State.setBlock_of_ne _ _ _ hb]
  have hown : ∀ b w, InBlock cfg (s.setBlock (cfg.shardId c) c block') key b w → b = c := by
    rintro b w ⟨hslot, hcomb, block'', hblock'', hentry⟩
    by_contra hb
    rw [State.setBlock_of_ne _ _ _ hb] at hblock''
    exact hb (honly b w ⟨hslot, hcomb, block'', hblock'', hentry⟩)
  refine ⟨⟨h.sound.setBlock _ _ _, h.onePlace, h.cell, ?_, ?_⟩, ?_⟩
  · intro k hk b w w' hb hw
    by_cases heq : k = key
    · exact hcell w' (heq ▸ hw)
    · exact h.not_both k hk b w w' ((hin k heq b w).mp hb) hw
  · intro k b b' w w' hb hb'
    by_cases heq : k = key
    · subst heq
      rw [hown b w hb, hown b' w' hb']
    · exact h.oneBlock k b b' w w' ((hin k heq b w).mp hb) ((hin k heq b' w').mp hb')
  · rintro k ⟨-, hne⟩ w
    exact or_congr Iff.rfl (exists_congr fun b => hin k hne b w)

/-- An entry is moved to make room. -/
theorem apart_of_emptySlot {bid : UInt64} (hbid : bid < cfg.totalBuckets)
    (hempty : EmptySlot cfg s bid s' i) :
    KeysApart hreg K s' ∧ (∀ k w, InCell hreg s' k w ↔ InCell hreg s k w) ∧
      ∀ k b w, InBlock cfg s' k b w ↔ InBlock cfg s k b w := by
  have hcombined : ∀ b, (s'.ht b).isCombinedEntry = (s.ht b).isCombinedEntry := by
    intro b
    rw [Bool.eq_iff_iff]
    refine ⟨hempty.combined_before, ?_⟩
    intro hb
    by_cases hslot : b = cfg.calcSlotBucketId bid i
    · exact absurd hb (by rw [hempty.plain_before h.sound hslot]; exact Bool.false_ne_true)
    · rw [(hempty.unchanged (h.sound.valid b hb) hslot).1]
      exact hb
  have hin := inBlock_congr cfg hcombined hempty.combinedEntries_eq
  have hcell : ∀ k w, InCell hreg s' k w ↔ InCell hreg s k w := fun k w =>
    hempty.held_iff hreg hbid (hreg.bucketId_lt k)
  refine ⟨⟨hempty.blocksSound h.sound, hempty.onePlace hreg hbid h.onePlace, ?_, ?_, ?_⟩, hcell, hin⟩
  · intro home hmem tag w hheld
    exact h.cell home hmem tag w ((hempty.held_iff hreg hbid hmem).mp hheld)
  · intro k hk b w w' hb hw
    exact h.not_both k hk b w w' ((hin k b w).mp hb) ((hcell k w').mp hw)
  · intro k b b' w w' hb hb'
    exact h.oneBlock k b b' w w' ((hin k b w).mp hb) ((hin k b' w').mp hb')

/-- The bucket of one key becomes a block that has this key. -/
theorem apart_of_create (hK : Set.InjOn cfg.classOf K)
    (hoverflow : cfg.handleOverflow = true) {owner : UInt64} (howner : owner ∈ K)
    (hc : c = cfg.calcSlotBucketId (cfg.bucketId owner) i)
    (hheld : HeldAt hreg.slots s.cells (cfg.bucketId owner) (partialKeyBits owner) i (s.ht c))
    (hs' : s' = (s.setBlock (cfg.shardId c) c (newBlock c owner (s.ht c))).setRecord c
      (s.ht c).setCombinedEntry) :
    KeysApart hreg K s' ∧ SameFor hreg K s s' := by
  have hhome : hreg.slots.mem (cfg.bucketId owner) := hreg.bucketId_lt owner
  have honly : ∀ j w, HeldAt hreg.slots s.cells (cfg.bucketId owner) (partialKeyBits owner) j w →
      j = i := fun j w hj => h.onePlace _ hhome _ _ _ _ _ hj hheld
  have hplain : (s.ht c).isCombinedEntry = false := hc ▸ plain_of_heldAt hheld
  have hcells : s'.cells = update s.cells (hreg.slots.slot (cfg.bucketId owner) i) none := by
    rw [hs', State.cells_setRecord, hc]
    exact congrArg _ (cellOf_of_combined rfl _ _)
  have hnone : ∀ x : Cell (Fin 4) UInt8 PackedItemRecord, none = some x →
      x.offset = i ∧ x.tag = partialKeyBits owner := fun x hx => absurd hx (by simp)
  -- cells: the owner has lost its own, all others are as before
  have hgone : ∀ w, ¬ InCell hreg s' owner w := by
    intro w hw
    rw [InCell, hcells] at hw
    exact absurd (eq_of_held_write hhome hnone honly hw) (by simp)
  have hcell : ∀ k ∈ K, k ≠ owner → ∀ w, InCell hreg s' k w ↔ InCell hreg s k w := by
    intro k hk hne w
    rw [InCell, InCell, hcells]
    refine held_write_iff hhome hnone (hreg.bucketId_lt k)
      (fun hclass => hne (hK hk howner hclass)) ?_
    intro x hx
    rw [HeldAt] at hheld
    rw [hheld, some.injEq] at hx
    subst hx
    exact ⟨rfl, rfl⟩
  -- blocks: the new one has the owner, all others are as before
  have hentries : s'.combinedEntries (cfg.shardId c) c = some (newBlock c owner (s.ht c)) :=
    hs' ▸ createdBlock_entries s _ c _ _
  have hnew : ∀ k w, InBlock cfg s' k c w ↔ k = owner ∧ w = s.ht c := by
    intro k w
    constructor
    · rintro ⟨-, -, block, hblock, hentry⟩
      rw [hentries, some.injEq] at hblock
      rw [← hblock, getIndexEntry_newBlock, ite_none_right_eq_some, some.injEq] at hentry
      exact ⟨hentry.1.symm, hentry.2.symm⟩
    · rintro ⟨rfl, rfl⟩
      refine ⟨⟨i, hc.symm⟩, hs' ▸ createdBlock_combined _ _ _, _, hentries, ?_⟩
      rw [getIndexEntry_newBlock, if_pos rfl]
  have hold : ∀ k b w, b ≠ c → (InBlock cfg s' k b w ↔ InBlock cfg s k b w) := by
    intro k b w hne
    have hht : s'.ht b = s.ht b := by
      rw [hs', State.setRecord_ht, if_neg hne]
      rfl
    have hblocks : s'.combinedEntries (cfg.shardId b) b = s.combinedEntries (cfg.shardId b) b :=
      hs' ▸ State.setBlock_of_ne _ _ _ hne
    rw [InBlock, InBlock, hht, hblocks]
  have hnot : ∀ k w, ¬ InBlock cfg s k c w := fun k w hb => absurd hb.2.1 (by simp [hplain])
  have hwas : InCell hreg s owner (s.ht c) := ⟨i, hheld⟩
  refine ⟨⟨hs' ▸ h.sound.create hoverflow c _ _, ?_, ?_, ?_, ?_⟩, ?_⟩
  · rw [hcells]
    exact h.onePlace.write hhome hnone honly
  · intro home hmem tag w hw
    by_cases hclass : (home, tag) = cfg.classOf owner
    · exact ⟨owner, howner, hclass.symm⟩
    · rw [hcells] at hw
      exact h.cell home hmem tag w (held_of_held_write hhome hnone hmem hclass hw)
  · intro k hk b w w' hb hw
    by_cases hown : k = owner
    · exact hgone w' (hown ▸ hw)
    · have hne : b ≠ c := by
        rintro rfl
        exact hown ((hnew k w).mp hb).1
      exact h.not_both k hk b w w' ((hold k b w hne).mp hb) ((hcell k hk hown w').mp hw)
  · -- the owner was in its cell, and so in no other block
    have hother : ∀ b w, b ≠ c → ¬ InBlock cfg s' owner b w := by
      intro b w hne hb
      exact h.not_both owner howner b w _ ((hold owner b w hne).mp hb) hwas
    intro k b b' w w' hb hb'
    by_cases hown : k = owner
    · subst hown
      have hbc : b = c := by_contra fun hne => hother b w hne hb
      have hbc' : b' = c := by_contra fun hne => hother b' w' hne hb'
      rw [hbc, hbc']
    · have hne : ∀ {d v}, InBlock cfg s' k d v → d ≠ c := by
        rintro d v hd rfl
        exact hown ((hnew k v).mp hd).1
      exact h.oneBlock k b b' w w' ((hold k b w (hne hb)).mp hb) ((hold k b' w' (hne hb')).mp hb')
  · intro k hk w
    by_cases hown : k = owner
    · subst hown
      constructor
      · rintro (hw | ⟨b, hb⟩)
        · exact absurd hw (hgone w)
        · by_cases hbc : b = c
          · subst hbc
            exact Or.inl (((hnew k w).mp hb).2 ▸ hwas)
          · exact Or.inr ⟨b, (hold k b w hbc).mp hb⟩
      · rintro (hw | ⟨b, hb⟩)
        · have heq : w = s.ht c := h.onePlace.val_eq hhome hw hwas
          exact Or.inr ⟨c, (hnew k w).mpr ⟨rfl, heq⟩⟩
        · exact absurd hwas (h.not_both k hk b w _ hb)
    · refine or_congr (hcell k hk hown w) (exists_congr fun b => ?_)
      by_cases hbc : b = c
      · subst hbc
        exact iff_of_false (fun hb => hown ((hnew k w).mp hb).1) (hnot k w)
      · exact hold k b w hbc

/-! ## Making room -/

/-- The callback knows the keys of the entries. -/
def KnowsKeys (cfg : Config) (K : Set UInt64) (s : State)
    (retrieveKey : UInt32 → Option UInt64) : Prop :=
  ∀ key ∈ K, ∀ r, peek cfg s key = some r → retrieveKey r.address = some key

variable {retrieveKey : UInt32 → Option UInt64}

theorem exists_owner (hoverflow : cfg.handleOverflow = true)
    (hknows : KnowsKeys cfg K s retrieveKey) (hc : c < cfg.totalBuckets)
    (hvalid : (s.ht c).isValid = true) (hplain : (s.ht c).isCombinedEntry = false) :
    ∃ owner ∈ K, ∃ j, c = cfg.calcSlotBucketId (cfg.bucketId owner) j ∧
      HeldAt hreg.slots s.cells (cfg.bucketId owner) (partialKeyBits owner) j (s.ht c) ∧
      retrieveKey (s.ht c).address = some owner := by
  have hx : s.cells c = some ⟨s.getBucketFillOffset c, s.getPartialKey c, s.ht c⟩ :=
    cellOf_eq_some_iff.mpr ⟨hvalid, hplain, rfl⟩
  have hheld := held_of_cell (G := hreg.slots) hc hx
  obtain ⟨owner, howner, hclass⟩ := h.cell _ (hreg.slots.orig_mem hc _) _ _ ⟨_, hheld⟩
  obtain ⟨hhome, htag⟩ := Prod.mk.inj hclass
  have hslot : c = cfg.calcSlotBucketId (cfg.bucketId owner) (s.getBucketFillOffset c) := by
    rw [hhome]
    exact (hreg.slots.slot_orig hc _).symm
  rw [← hhome, ← htag] at hheld
  have haddress : (s.ht c).address ≠ 0 := of_decide_eq_true hvalid
  obtain ⟨r, hpeek, hr⟩ := (peek_iff_stored h hoverflow howner (s.ht c).address).mpr
    ⟨haddress, s.ht c, Or.inl ⟨_, hheld⟩, rfl⟩
  exact ⟨owner, howner, _, hslot, hheld, hr ▸ hknows owner howner r hpeek⟩

theorem apart_of_decide (hK : Set.InjOn cfg.classOf K)
    (hoverflow : cfg.handleOverflow = true) (hkey : key ∈ K)
    (hknows : KnowsKeys cfg K s retrieveKey) {s₁ : State}
    (hdecided : decideBucketSlotOffset cfg s retrieveKey (cfg.bucketId key) key = (s₁, i)) :
    KeysApart hreg K s₁ ∧ SameFor hreg K s s₁ ∧
      Place hreg s₁ key i (cfg.calcSlotBucketId (cfg.bucketId key) i) := by
  have hbid := hreg.bucketId_lt key
  have hzero := calcSlotBucketId_zero hreg.accepted hbid
  have hcases := decided cfg s retrieveKey (cfg.bucketId key) key
  rw [hdecided] at hcases
  dsimp only at hcases
  cases hcases with
  | existing _ hfound =>
      exact ⟨h, SameFor.refl hreg K s, place_of_check h hoverflow hkey hfound⟩
  | room _ _ hnew hroom =>
      have hempty := (findOrMakeEmptySlotByMoving_some hroom).1
      obtain ⟨hnotCell, hnotBlock⟩ := not_stored_of_check hreg hoverflow hnew
      obtain ⟨happart, hcell, hin⟩ := apart_of_emptySlot h hbid hempty
      refine ⟨happart, ?_, .own (hempty.plain h.sound rfl) ?_ ?_ ?_⟩
      · intro k _ r
        simp only [Stored, hcell, hin]
      · intro x hx
        rw [State.cells, cellOf_of_invalid hempty.isValid_eq_false] at hx
        exact absurd hx (by simp)
      · intro j w hj
        exact absurd ((hcell key w).mp ⟨j, hj⟩) (hnotCell w)
      · intro b w hb
        exact hnotBlock b w ((hin key b w).mp hb)
  | combined _ hnew _ _ hcombined =>
      obtain ⟨hnotCell, hnotBlock⟩ := not_stored_of_check hreg hoverflow hnew
      exact ⟨h, SameFor.refl hreg K s,
        .block hcombined hnotCell fun b w hb => absurd hb (hnotBlock b w)⟩
  | created key' c hc hnew hfull _ hnone hkey' =>
      obtain ⟨hnotCell, hnotBlock⟩ := not_stored_of_check hreg hoverflow hnew
      rw [hzero] at hc
      subst hc
      have hvalid : (s.ht (cfg.bucketId key)).isValid = true :=
        hzero ▸ isValid_of_findOrMakeEmptySlot hfull 0 (mem_slotOffsets 0)
      obtain ⟨owner, howner, j, hslot, hheld, hcall⟩ :=
        exists_owner h hoverflow hknows hbid hvalid (hzero ▸ hnone 0)
      obtain rfl : owner = key' := some.inj (hcall.symm.trans hkey')
      obtain ⟨happart, hsame⟩ := apart_of_create h hK hoverflow howner hslot hheld rfl
      -- the key was not stored, so it still is not
      have hold : ∀ r, ¬ Stored hreg s key r := by
        rintro r (hcell | ⟨b, hb⟩)
        · exact hnotCell r hcell
        · exact hnotBlock b r hb
      have hnot := fun r hr => hold r ((hsame key hkey r).mp hr)
      rw [hzero]
      exact ⟨happart, hsame, .block (createdBlock_combined _ _ _) (fun w hw => hnot w (Or.inl hw))
        fun b w hb => absurd (Or.inr ⟨b, hb⟩) (hnot w)⟩
  | replaced hnew hfull hrefused =>
      obtain ⟨hnone, hcall⟩ := hrefused hoverflow
      have hvalid := isValid_of_findOrMakeEmptySlot hfull 0 (mem_slotOffsets 0)
      rw [hzero] at hvalid hcall
      obtain ⟨owner, -, j, -, -, hcall'⟩ :=
        exists_owner h hoverflow hknows hbid hvalid (hzero ▸ hnone 0)
      exact absurd hcall' (by simp [hcall])

/-! ## The operations -/

omit h in
theorem lockedBucket_key (cfg : Config) (s : State) (key : UInt64) (offset : Option (Fin 4)) :
    (lockedBucket cfg s key offset).key = key := by
  cases offset <;> rfl

omit h in
theorem lockedBucket_sid (cfg : Config) (s : State) (key : UInt64) (offset : Option (Fin 4)) :
    (lockedBucket cfg s key offset).sid = cfg.shardId (cfg.bucketId key) := by
  cases offset <;> rfl

theorem KeysApart.countValid (lb : LockedBucket)
    (change : UInt64 → UInt64) : KeysApart hreg K (lb.countValid s change) :=
  ⟨h.sound.countValid lb change, h.onePlace, h.cell, h.not_both, h.oneBlock⟩

omit h in
theorem Place.countValid (h : Place hreg s key i c) (lb : LockedBucket)
    (change : UInt64 → UInt64) : Place hreg (lb.countValid s change) key i c := by
  cases h with
  | own hplain howner honly hblock => exact .own hplain howner honly hblock
  | block hcombined hcell honly => exact .block hcombined hcell honly

section

variable (hK : Set.InjOn cfg.classOf K) (hkey : key ∈ K)
  (hplace : Place hreg s key i c) (hc : c = cfg.calcSlotBucketId (cfg.bucketId key) i)
  {lb : LockedBucket} (hlbKey : lb.key = key) (hlbSid : lb.sid = cfg.shardId (cfg.bucketId key))
  (hslot : lb.slot = some (i, c))

include hc in
/-- The block of a place. -/
theorem exists_block (hcombined : (s.ht c).isCombinedEntry = true) :
    cfg.shardId (cfg.bucketId key) = cfg.shardId c ∧
      ∃ block, s.combinedEntries (cfg.shardId c) c = some block := by
  have hsid := hreg.accepted.shardId_calcSlotBucketId (hreg.bucketId_lt key) i
  exact ⟨hc ▸ hsid.symm, isSome_iff_exists.mp (h.sound.block c hcombined)⟩

include hK hkey hplace hc hlbKey hlbSid hslot

theorem apart_updateRecord {r : PackedItemRecord} (hr : r.isCombinedEntry = false) :
    KeysApart hreg K (lb.updateRecord s r) ∧
      SameFor hreg (K \ {key}) s (lb.updateRecord s r) := by
  have hsound := h.sound.updateRecord lb hr
  cases hplace with
  | own hplain howner honly hblock =>
      rw [updateRecord_of_plain hslot r hplain, hlbKey] at hsound ⊢
      refine apart_of_write h hK hkey hc howner honly hblock (State.cells_setEntry _ _ _ _) ?_ rfl
        hsound
      intro b
      change ((s.setRecord c r).ht b).isCombinedEntry = _
      rw [State.setRecord_ht]
      split
      · rename_i heq
        rw [heq, hr, hplain]
      · rfl
  | block hcombined hcell honly =>
      obtain ⟨hsid, block, hblock⟩ := exists_block h hc hcombined
      rw [hsid] at hlbSid
      rw [updateRecord_of_block hslot r hcombined (hlbSid ▸ hblock), hlbSid, hlbKey]
      exact apart_of_setBlock h hc hcombined hcell honly hblock
        fun k hne => CombinedEntryBlock.getIndexEntry_addIndexEntry_of_ne hne

theorem apart_removeRecord :
    KeysApart hreg K (lb.removeRecord s) ∧ SameFor hreg (K \ {key}) s (lb.removeRecord s) := by
  have hsound := h.sound.removeRecord lb
  cases hplace with
  | own hplain howner honly hblock =>
      have hremove : lb.removeRecord s = s.setRecord c {} := by
        simp [LockedBucket.removeRecord, hslot, hplain]
      rw [hremove] at hsound ⊢
      refine apart_of_write h hK hkey hc howner honly hblock (r := {}) ?_ ?_ rfl hsound
      · rw [State.cells_setRecord]
        rfl
      · intro b
        rw [State.setRecord_ht]
        split
        · rename_i heq
          rw [heq, hplain]
          rfl
        · rfl
  | block hcombined hcell honly =>
      obtain ⟨hsid, block, hblock⟩ := exists_block h hc hcombined
      rw [hsid] at hlbSid
      have hremove : lb.removeRecord s
          = s.setBlock (cfg.shardId c) c (block.removeIndexEntry key).2 := by
        simp [LockedBucket.removeRecord, hslot, hcombined, hblock, hlbSid, hlbKey]
      rw [hremove]
      refine apart_of_setBlock h hc hcombined hcell honly hblock ?_
      intro k hne
      rw [CombinedEntryBlock.getIndexEntry_removeIndexEntry, if_neg hne]

omit hlbKey hlbSid hslot in
/-- The record in a bucket of the key's own is changed. -/
theorem apart_setRecord (hvalid : (s.ht c).isValid = true)
    (hplain : (s.ht c).isCombinedEntry = false) {r : PackedItemRecord}
    (hr : r.isCombinedEntry = false) :
    KeysApart hreg K (s.setRecord c r) ∧ SameFor hreg (K \ {key}) s (s.setRecord c r) := by
  cases hplace with
  | own _ howner honly hblock =>
      obtain ⟨hfill, htag⟩ := howner ⟨s.getBucketFillOffset c, s.getPartialKey c, s.ht c⟩
        (cellOf_eq_some_iff.mpr ⟨hvalid, hplain, rfl⟩)
      refine apart_of_write h hK hkey hc howner honly hblock (r := r) ?_ ?_ rfl
        (h.sound.setPlain c hr)
      · rw [State.cells_setRecord]
        simp only at hfill htag
        rw [hfill, htag]
      · intro b
        rw [State.setRecord_ht]
        split
        · rename_i heq
          rw [heq, hr, hplain]
        · rfl
  | block hcombined _ _ => exact absurd hcombined (by simp [hplain])

theorem apart_updateNewAddress (newAddress : UInt32)
    (hvalid : (recordAt s (cfg.shardId (cfg.bucketId key)) c key).isValid = true) :
    KeysApart hreg K (lb.updateNewAddress s newAddress).1 ∧
      SameFor hreg (K \ {key}) s (lb.updateNewAddress s newAddress).1 := by
  by_cases hplain : (s.ht c).isCombinedEntry = false
  · rw [recordAt_of_plain hplain] at hvalid
    have hupdate : (lb.updateNewAddress s newAddress).1
        = s.setRecord c { s.ht c with address := newAddress, curHits := 0 } := by
      simp [LockedBucket.updateNewAddress, hslot, hplain]
    rw [hupdate]
    exact apart_setRecord h hK hkey hplace hc hvalid hplain hplain
  · cases hplace with
    | own hplain' _ _ _ => exact absurd hplain' hplain
    | block hcombined hcell honly =>
        obtain ⟨hsid, block, hblock⟩ := exists_block h hc hcombined
        rw [hsid] at hlbSid
        have hupdate : (lb.updateNewAddress s newAddress).1
            = s.setBlock (cfg.shardId c) c (block.addIndexEntry c key
              { lb.record with address := newAddress, curHits := 0 }).2 := by
          simp [LockedBucket.updateNewAddress, LockedBucket.insertCombinedIndexEntry, hslot,
            hcombined, hblock, hlbSid, hlbKey]
        rw [hupdate]
        exact apart_of_setBlock h hc hcombined hcell honly hblock
          fun k hne => CombinedEntryBlock.getIndexEntry_addIndexEntry_of_ne hne

omit hlbKey hlbSid in
theorem apart_bumpCurRecordHits
    (hvalid : (recordAt s (cfg.shardId (cfg.bucketId key)) c key).isValid = true) :
    KeysApart hreg K (lb.bumpCurRecordHits s) ∧
      SameFor hreg (K \ {key}) s (lb.bumpCurRecordHits s) := by
  have hsound := h.sound.bumpCurRecordHits lb
  have hbump : lb.bumpCurRecordHits s = s.setRecord c ((s.ht c).bumpCurHits 1) := by
    simp [LockedBucket.bumpCurRecordHits, hslot]
  rw [hbump] at hsound ⊢
  by_cases hplain : (s.ht c).isCombinedEntry = false
  · rw [recordAt_of_plain hplain] at hvalid
    exact apart_setRecord h hK hkey hplace hc hvalid hplain hplain
  · -- the hits of a block are counted in its bucket
    rw [Bool.not_eq_false] at hplain
    refine apart_of_same h ?_ ?_ ?_ hsound _
    · have hnone : s.cells c = none := cellOf_of_combined hplain _ _
      have hbumped : ((s.ht c).bumpCurHits 1).isCombinedEntry = true := hplain
      rw [State.cells_setRecord, cellOf_of_combined hbumped, ← hnone, update_eq_self]
    · intro b
      rw [State.setRecord_ht]
      split
      · rename_i heq
        rw [heq]
        rfl
      · rfl
    · rfl

end

section

variable (hK : Set.InjOn cfg.classOf K)
  (hoverflow : cfg.handleOverflow = true) (hkey : key ∈ K)

include hK hoverflow hkey

omit hK in
theorem lockExisting_place :
    (lockExisting cfg s key).slot = none ∧ (lockExisting cfg s key).record = {} ∨
      ∃ i c, c = cfg.calcSlotBucketId (cfg.bucketId key) i ∧ Place hreg s key i c ∧
        (lockExisting cfg s key).slot = some (i, c) ∧
        (lockExisting cfg s key).record = recordAt s (cfg.shardId (cfg.bucketId key)) c key := by
  rcases hcheck : checkBucketSlotOffset cfg s (cfg.bucketId key) key with _ | i
  · refine Or.inl ⟨?_, ?_⟩ <;> simp only [lockExisting, hcheck, lockedBucket]
  · refine Or.inr ⟨i, _, rfl, place_of_check h hoverflow hkey hcheck, ?_, ?_⟩ <;>
      simp only [lockExisting, hcheck, lockedBucket]

omit hK in
theorem apart_if_found (change : LockedBucket → State → State)
    (hchange : ∀ {lb : LockedBucket} {i c}, c = cfg.calcSlotBucketId (cfg.bucketId key) i →
      Place hreg s key i c → lb.key = key → lb.sid = cfg.shardId (cfg.bucketId key) →
      lb.slot = some (i, c) →
      (recordAt s (cfg.shardId (cfg.bucketId key)) c key).isValid = true →
      KeysApart hreg K (change lb s) ∧ SameFor hreg (K \ {key}) s (change lb s))
    (hvalid : (lockExisting cfg s key).record.isValid = true) :
    KeysApart hreg K (change (lockExisting cfg s key) s) ∧
      SameFor hreg (K \ {key}) s (change (lockExisting cfg s key) s) := by
  rcases lockExisting_place h hoverflow hkey with ⟨-, hrecord⟩ | ⟨i, c, hc, hplace, hslot, hrecord⟩
  · exact absurd hvalid (by rw [hrecord]; decide)
  · exact hchange hc hplace (lockedBucket_key _ _ _ _) (lockedBucket_sid _ _ _ _) hslot
      (hrecord ▸ hvalid)

/-- An insert has a place for the key in hand, and writes to it. -/
theorem apart_lockForInsert (hknows : KnowsKeys cfg K s retrieveKey) :
    KeysApart hreg K (lockForInsert cfg s retrieveKey key).1 ∧
      SameFor hreg K s (lockForInsert cfg s retrieveKey key).1 ∧
      ∃ i, Place hreg (lockForInsert cfg s retrieveKey key).1 key i
          (cfg.calcSlotBucketId (cfg.bucketId key) i) ∧
        (lockForInsert cfg s retrieveKey key).2.slot
          = some (i, cfg.calcSlotBucketId (cfg.bucketId key) i) := by
  rcases hdecided : decideBucketSlotOffset cfg s retrieveKey (cfg.bucketId key) key with ⟨s₁, i⟩
  obtain ⟨happart, hsame, hplace⟩ := apart_of_decide h hK hoverflow hkey hknows hdecided
  simp only [lockForInsert, hdecided]
  exact ⟨happart, hsame, i, hplace, rfl⟩

theorem apart_perform (hknows : KnowsKeys cfg K s retrieveKey) {op : Op} (hop : op.key = key) :
    KeysApart hreg K (perform cfg s retrieveKey op).1 ∧
      SameFor hreg (K \ {key}) s (perform cfg s retrieveKey op).1 := by
  subst hop
  have hsame := SameFor.refl hreg (K \ {op.key}) s
  cases op with
  | lookup key =>
      simp only [perform, Prod.map, lookup, id]
      split
      · exact apart_if_found h hoverflow hkey LockedBucket.bumpCurRecordHits
          (fun hc hplace _ _ hslot hr => apart_bumpCurRecordHits h hK hkey hplace hc hslot hr) ‹_›
      · exact ⟨h, hsame⟩
  | insert key address sizeHint =>
      obtain ⟨happart, hroom, i, hplace, hslot⟩ :=
        apart_lockForInsert h hK hoverflow hkey hknows
      have hmake := PackedItemRecord.make_isCombinedEntry address sizeHint 0
      simp only [perform, Prod.map, insert, id]
      split
      · obtain ⟨happart', hsame'⟩ := apart_updateRecord happart hK hkey hplace rfl
          (lockedBucket_key _ _ _ _) (lockedBucket_sid _ _ _ _) hslot hmake
        exact ⟨happart', hroom.trans hsame' Set.sdiff_subset⟩
      · obtain ⟨happart', hsame'⟩ := apart_updateRecord (happart.countValid _ (· + 1)) hK hkey
          (hplace.countValid _ _) rfl (lockedBucket_key _ _ _ _) (lockedBucket_sid _ _ _ _) hslot hmake
        exact ⟨happart', hroom.trans hsame' Set.sdiff_subset⟩
  | insertIfNotExists key address sizeHint =>
      obtain ⟨happart, hroom, i, hplace, hslot⟩ :=
        apart_lockForInsert h hK hoverflow hkey hknows
      have hmake := PackedItemRecord.make_isCombinedEntry address sizeHint 0
      simp only [perform, Prod.map, insertIfNotExists, id]
      split
      · exact ⟨happart, fun k hk => hroom k hk.1⟩
      · obtain ⟨happart', hsame'⟩ := apart_updateRecord (happart.countValid _ (· + 1)) hK hkey
          (hplace.countValid _ _) rfl (lockedBucket_key _ _ _ _) (lockedBucket_sid _ _ _ _) hslot hmake
        exact ⟨happart', hroom.trans hsame' Set.sdiff_subset⟩
  | replaceIfMatch key newAddress oldAddress =>
      simp only [perform, Prod.map, replaceIfMatch, id]
      split
      · rename_i hmatch
        exact apart_if_found h hoverflow hkey (fun lb s => (lb.updateNewAddress s newAddress).1)
          (fun hc hplace hlbKey hlbSid hslot hr =>
            apart_updateNewAddress h hK hkey hplace hc hlbKey hlbSid hslot newAddress hr)
          (Bool.and_eq_true_iff.mp hmatch).1
      · exact ⟨h, hsame⟩
  | remove key =>
      change key ∈ K at hkey
      simp only [perform, Prod.map, remove, id]
      split
      · exact apart_if_found h hoverflow hkey
          (fun lb s => lb.removeRecord (lb.countValid s (· - 1)))
          (fun hc hplace hlbKey hlbSid hslot _ => apart_removeRecord (h.countValid _ _) hK hkey
            (hplace.countValid _ _) hc hlbKey hlbSid hslot) ‹_›
      · rcases lockExisting_place h hoverflow hkey with ⟨hslot, -⟩ | ⟨i, c, hc, hplace, hslot, -⟩
        · have hnothing : (lockExisting cfg s key).removeRecord s = s := by
            simp only [LockedBucket.removeRecord, hslot]
          rw [hnothing]
          exact ⟨h, hsame⟩
        · exact apart_removeRecord h hK hkey hplace hc (lockedBucket_key _ _ _ _)
            (lockedBucket_sid _ _ _ _) hslot
  | removeIfMatch key address =>
      simp only [perform, Prod.map, removeIfMatch, id]
      split
      · rename_i hmatch
        exact apart_if_found h hoverflow hkey
          (fun lb s => lb.countValid (lb.removeRecord s) (· - 1))
          (fun hc hplace hlbKey hlbSid hslot _ =>
            have happart := apart_removeRecord h hK hkey hplace hc hlbKey hlbSid hslot
            ⟨happart.1.countValid _ _, happart.2⟩)
          (Bool.and_eq_true_iff.mp hmatch).1
      · exact ⟨h, hsame⟩

end

end Apart

/-! ## Runs -/

/-- A call on a key in `K`, with a callback that knows the keys. -/
def Faithful (cfg : Config) (K : Set UInt64) (s : State) (call : Call) : Prop :=
  call.op.key ∈ K ∧ KnowsKeys cfg K s call.retrieveKey

theorem apart_of_step (h : KeysApart hreg K s) (hK : Set.InjOn cfg.classOf K)
    (hoverflow : cfg.handleOverflow = true) {call : Call} (hcall : Faithful cfg K s call)
    (hstep : step cfg s call = some s') :
    KeysApart hreg K s' ∧ SameFor hreg (K \ {call.op.key}) s s' := by
  simp only [step, ite_none_right_eq_some, some.injEq] at hstep
  obtain ⟨-, rfl⟩ := hstep
  exact apart_perform h hK hoverflow hcall.1 hcall.2 rfl

theorem keysApart_of_run (hreg : cfg.Regular) (hK : Set.InjOn cfg.classOf K)
    (hoverflow : cfg.handleOverflow = true) {calls : List Call}
    (hrun : exec (step cfg) {} calls = some s)
    (hcalls : Along (step cfg) (Faithful cfg K) {} calls) : KeysApart hreg K s := by
  refine exec_invariant_along ?_ hrun hcalls ?_
  · intro s call t hinv hcall hstep
    exact (apart_of_step hinv hK hoverflow hcall hstep).1
  · refine ⟨blocksSound_empty cfg, onePlace_empty, ?_, ?_, ?_⟩
    · rintro home - tag r ⟨i, hi⟩
      have hvalid := isValid_of_heldAt hi
      rw [← (heldAt_ht hi).2.2] at hvalid
      exact absurd hvalid Bool.false_ne_true
    · exact fun k _ c r r' hb => absurd hb.2.1 Bool.false_ne_true
    · exact fun k c c' r r' hb => absurd hb.2.1 Bool.false_ne_true

theorem lookup_address_eq (s : State) (key : UInt64) :
    (lookup cfg s key).2.map (·.address) = (peek cfg s key).map (·.address) := by
  unfold lookup peek
  by_cases hvalid : (lockExisting cfg s key).record.isValid = true
  · simp [hvalid, PackedItemRecord.toItemRecord]
  · simp [hvalid]

/-- **Operations on a key do not change what is found for another.** The keys in use have
different classes and the callback knows the keys of the entries; then, whatever was called
before and whether blocks are full or not, a call leaves the address that a lookup returns for
every other key. -/
theorem other_keys_unchanged (hreg : cfg.Regular) (hoverflow : cfg.handleOverflow = true)
    (hK : Set.InjOn cfg.classOf K) {calls : List Call} (hrun : exec (step cfg) {} calls = some s)
    (hcalls : Along (step cfg) (Faithful cfg K) {} calls) {call : Call}
    (hcall : Faithful cfg K s call) (hstep : step cfg s call = some s') {key : UInt64}
    (hkey : key ∈ K) (hne : key ≠ call.op.key) :
    (lookup cfg s' key).2.map (·.address) = (lookup cfg s key).2.map (·.address) := by
  have h := keysApart_of_run hreg hK hoverflow hrun hcalls
  obtain ⟨h', hsame⟩ := apart_of_step h hK hoverflow hcall hstep
  rw [lookup_address_eq, lookup_address_eq]
  ext address
  simp only [map_eq_some_iff]
  rw [peek_iff_stored h' hoverflow hkey, peek_iff_stored h hoverflow hkey]
  simp only [hsame key ⟨hkey, hne⟩]

/-- For a list of keys, whether a call is faithful can be decided. -/
instance Faithful.decidable (cfg : Config) (keys : List UInt64) (s : State) (call : Call) :
    Decidable (Faithful cfg {k | k ∈ keys} s call) :=
  decidable_of_iff (call.op.key ∈ keys ∧ keys.all fun key =>
      (peek cfg s key).all fun r => call.retrieveKey r.address == some key)
    (by simp [Faithful, KnowsKeys, all_eq_true])

/-- Five keys with the home 410 and different bits. -/
def fiveKeys : List UInt64 :=
  [0, 0x10000000000, 0x20000000000, 0x30000000000, 0x40000000000]

/-- The insert of a key with its place in the list, counted from 10, as its address. -/
def insertNth (n : Nat) : Call where
  op := .insert (fiveKeys.getD n 0) (UInt32.ofNat (10 + n)) 100
  retrieveKey address := fiveKeys[address.toNat - 10]?
  reply := .record none

/-- The fifth key makes a block of the home bucket, and of the entry of the first one. The first one
is found there. -/
theorem other_keys_unchanged_fiveKeys :
    ∃ s s', exec (step (createIndex largerMutex true)) {} [insertNth 0, insertNth 1, insertNth 2,
        insertNth 3] = some s ∧
      step (createIndex largerMutex true) s (insertNth 4) = some s' ∧
      (s.ht 410).isCombinedEntry = false ∧ (s'.ht 410).isCombinedEntry = true ∧
      (lookup (createIndex largerMutex true) s' 0).2.map (·.address) = some 10 := by
  let cfg := createIndex largerMutex true
  obtain ⟨s, hs, hplain, hfound, hcall, s', hstep, hblock⟩ :
      ∃ s, exec (step cfg) {} [insertNth 0, insertNth 1, insertNth 2, insertNth 3] = some s ∧
        (s.ht 410).isCombinedEntry = false ∧ (lookup cfg s 0).2.map (·.address) = some 10 ∧
        Faithful cfg {k | k ∈ fiveKeys} s (insertNth 4) ∧
        ∃ s', step cfg s (insertNth 4) = some s' ∧ (s'.ht 410).isCombinedEntry = true := by
    decide +kernel
  have hcalls : Along (step cfg) (Faithful cfg {k | k ∈ fiveKeys}) {}
      [insertNth 0, insertNth 1, insertNth 2, insertNth 3] := by decide +kernel
  have hclasses : (fiveKeys.map cfg.classOf).Nodup := by decide +kernel
  refine ⟨s, s', hs, hstep, hplain, hblock, ?_⟩
  have hsame := other_keys_unchanged (largerMutex_regular true) rfl
    (List.inj_on_of_nodup_map hclasses) hs hcalls hcall hstep
    (show (0 : UInt64) ∈ fiveKeys by decide) (by decide)
  rw [hsame]
  exact hfound

end CacheLib.Navy.FixedSizeIndex
