/-
Tables in which an entry may be in one of several slots of its home bucket.

A bucket has numbered slots, which are buckets again, and from a bucket and the number
of a slot there is a way back to the bucket it is that slot of. An entry is stored with
the number of the slot it is in and with a tag, so that the table knows the entry's home
and its tag, and nothing else: two keys with the same home and tag are one class.

An entry can move to another slot of its home without a change in which classes the table
holds (`held_relocate`), which is what makes room in it.
-/
import Mathlib.Logic.Function.Basic

set_option autoImplicit false

namespace SlotTable

open Function

/-- Buckets with numbered slots. Only the buckets that satisfy `mem` are part of the
table. -/
structure Slots (B ι : Type*) where
  mem : B → Prop
  slot : B → ι → B
  orig : B → ι → B
  slot_mem : ∀ {b}, mem b → ∀ i, mem (slot b i)
  orig_mem : ∀ {c}, mem c → ∀ i, mem (orig c i)
  orig_slot : ∀ {b}, mem b → ∀ i, orig (slot b i) i = b
  slot_orig : ∀ {c}, mem c → ∀ i, slot (orig c i) i = c
  slot_inj : ∀ {b}, mem b → ∀ {i j}, slot b i = slot b j → i = j

/-- What a bucket in use says of its entry. -/
@[ext] structure Cell (ι τ V : Type*) where
  offset : ι
  tag : τ
  val : V

variable {B ι τ V : Type*} (G : Slots B ι)

/-- The class of `home` and `tag` is in slot `i`. -/
def HeldAt (t : B → Option (Cell ι τ V)) (home : B) (tag : τ) (i : ι) (v : V) : Prop :=
  t (G.slot home i) = some ⟨i, tag, v⟩

/-- The table holds the class of `home` and `tag`. -/
def Held (t : B → Option (Cell ι τ V)) (home : B) (tag : τ) (v : V) : Prop :=
  ∃ i, HeldAt G t home tag i v

/-- No class is in two slots. -/
def OnePlace (t : B → Option (Cell ι τ V)) : Prop :=
  ∀ home, G.mem home → ∀ tag i j v w, HeldAt G t home tag i v → HeldAt G t home tag j w → i = j

variable {G} {t : B → Option (Cell ι τ V)} {home home' : B} {tag tag' : τ} {j : ι} {w : V}

theorem OnePlace.val_eq (h : OnePlace G t) (hhome : G.mem home) {v w : V}
    (hv : Held G t home tag v) (hw : Held G t home tag w) : v = w := by
  obtain ⟨i, hi⟩ := hv
  obtain ⟨j, hj⟩ := hw
  obtain rfl : i = j := h home hhome tag i j v w hi hj
  rw [HeldAt] at hi hj
  rw [hi, Option.some.injEq] at hj
  exact congrArg Cell.val hj

/-- A cell in the table is the entry of one class. -/
theorem held_of_cell {c : B} (hc : G.mem c) {x : Cell ι τ V} (hx : t c = some x) :
    HeldAt G t (G.orig c x.offset) x.tag x.offset x.val := by
  rw [HeldAt, G.slot_orig hc]
  exact hx

theorem onePlace_empty : OnePlace G (fun _ => (none : Option (Cell ι τ V))) := by
  intro home _ tag i j v w hi
  exact absurd hi (by simp [HeldAt])

/-! ## Writing a cell -/

variable [DecidableEq B]

/-- The entry of `home` and `tag` is written to slot `i`: it is there, and what was in
other buckets still is. -/
theorem heldAt_put (hhome : G.mem home) {i : ι} {v : V}
    (hhome' : G.mem home') :
    HeldAt G (update t (G.slot home i) (some ⟨i, tag, v⟩)) home' tag' j w ↔
      (home' = home ∧ tag' = tag ∧ j = i ∧ w = v) ∨
        (G.slot home' j ≠ G.slot home i ∧ HeldAt G t home' tag' j w) := by
  unfold HeldAt
  by_cases hslot : G.slot home' j = G.slot home i
  · rw [hslot, update_self, Option.some.injEq, Cell.mk.injEq]
    constructor
    · rintro ⟨rfl, rfl, rfl⟩
      have hback := congrArg (fun c => G.orig c i) hslot
      rw [G.orig_slot hhome, G.orig_slot hhome'] at hback
      exact Or.inl ⟨hback, rfl, rfl, rfl⟩
    · rintro (⟨-, rfl, rfl, rfl⟩ | ⟨hne, -⟩)
      · exact ⟨rfl, rfl, rfl⟩
      · exact absurd rfl hne
  · rw [update_of_ne hslot]
    constructor
    · intro h
      exact Or.inr ⟨hslot, h⟩
    · rintro (⟨rfl, -, rfl, -⟩ | ⟨-, h⟩)
      · exact absurd rfl hslot
      · exact h

theorem heldAt_erase {c : B} :
    HeldAt G (update t c none) home tag j w ↔
      G.slot home j ≠ c ∧ HeldAt G t home tag j w := by
  unfold HeldAt
  by_cases hslot : G.slot home j = c
  · subst hslot
    simp
  · rw [update_of_ne hslot]
    simp [hslot]

/-! A slot of a class is written with an entry of the class, or emptied: `x` is either. -/

section

variable {i : ι} {x : Option (Cell ι τ V)} (hhome : G.mem home)
  (hx : ∀ y, x = some y → y.offset = i ∧ y.tag = tag)

include hhome hx

/-- What is where after the write. -/
theorem heldAt_write (hhome' : G.mem home') :
    HeldAt G (update t (G.slot home i) x) home' tag' j w ↔
      (home' = home ∧ tag' = tag ∧ j = i ∧ x = some ⟨i, tag, w⟩) ∨
        (G.slot home' j ≠ G.slot home i ∧ HeldAt G t home' tag' j w) := by
  cases x with
  | none =>
      rw [heldAt_erase]
      simp
  | some y =>
      obtain ⟨v, rfl⟩ : ∃ v, y = ⟨i, tag, v⟩ := by
        obtain ⟨rfl, rfl⟩ := hx y rfl
        exact ⟨y.val, rfl⟩
      rw [heldAt_put hhome hhome', Option.some.injEq, Cell.mk.injEq]
      simp [eq_comm]

/-- Writing a class to the only slot it may be in keeps the classes apart. -/
theorem OnePlace.write (h : OnePlace G t) (honly : ∀ j w, HeldAt G t home tag j w → j = i) :
    OnePlace G (update t (G.slot home i) x) := by
  intro home' hhome' tag' j k v w hj hk
  rw [heldAt_write hhome hx hhome'] at hj hk
  rcases hj with ⟨rfl, rfl, rfl, -⟩ | ⟨-, hj⟩ <;> rcases hk with ⟨hh, ht, rfl, -⟩ | ⟨-, hk⟩
  · rfl
  · exact (honly k w hk).symm
  · subst hh ht
    exact honly j v hj
  · exact h home' hhome' tag' j k v w hj hk

/-- The class has what was written, if the slot is the only one it can be in. -/
theorem eq_of_held_write (honly : ∀ j w, HeldAt G t home tag j w → j = i)
    (hheld : Held G (update t (G.slot home i) x) home tag w) : x = some ⟨i, tag, w⟩ := by
  obtain ⟨j, hj⟩ := hheld
  rcases (heldAt_write hhome hx hhome).mp hj with ⟨-, -, -, hw⟩ | ⟨hslot, hold⟩
  · exact hw
  · exact absurd (by rw [honly j w hold]) hslot

/-- The other classes get nothing new. -/
theorem held_of_held_write (hhome' : G.mem home')
    (hne : (home', tag') ≠ (home, tag))
    (hheld : Held G (update t (G.slot home i) x) home' tag' w) : Held G t home' tag' w := by
  obtain ⟨j, hj⟩ := hheld
  rcases (heldAt_write hhome hx hhome').mp hj with ⟨rfl, rfl, -, -⟩ | ⟨-, hold⟩
  · exact absurd rfl hne
  · exact ⟨j, hold⟩

/-- And they lose nothing, if what was in the slot was of the class. -/
theorem held_write_iff (hhome' : G.mem home')
    (hne : (home', tag') ≠ (home, tag))
    (howner : ∀ y, t (G.slot home i) = some y → y.offset = i ∧ y.tag = tag) :
    Held G (update t (G.slot home i) x) home' tag' w ↔ Held G t home' tag' w := by
  refine ⟨held_of_held_write hhome hx hhome' hne, ?_⟩
  rintro ⟨j, hj⟩
  refine ⟨j, (heldAt_write hhome hx hhome').mpr (Or.inr ⟨?_, hj⟩)⟩
  intro hslot
  rw [HeldAt, hslot] at hj
  obtain ⟨hoffset, htag⟩ := howner _ hj
  have hback := congrArg (fun c => G.orig c i) hslot
  simp only at hoffset htag
  subst hoffset htag
  rw [G.orig_slot hhome, G.orig_slot hhome'] at hback
  exact hne (by rw [hback])

end

/-! ## Moving an entry -/

/-- The entry in bucket `c` goes to slot `sub` of its home. -/
def relocate (G : Slots B ι) (t : B → Option (Cell ι τ V)) (c : B) (x : Cell ι τ V) (sub : ι) :
    B → Option (Cell ι τ V) :=
  update
    (update t (G.slot (G.orig c x.offset) sub) (some ⟨sub, x.tag, x.val⟩)) c none

section

variable {c : B} {x : Cell ι τ V} {sub : ι}

/-- What is where after the move. -/
theorem heldAt_relocate (hc : G.mem c) (hx : t c = some x)
    (hempty : t (G.slot (G.orig c x.offset) sub) = none) (hhome : G.mem home) :
    HeldAt G (relocate G t c x sub) home tag j w ↔
      (home = G.orig c x.offset ∧ tag = x.tag ∧ j = sub ∧ w = x.val) ∨
        (G.slot home j ≠ c ∧ HeldAt G t home tag j w) := by
  have hne : G.slot (G.orig c x.offset) sub ≠ c := by
    intro heq
    rw [heq, hx] at hempty
    exact Option.some_ne_none x hempty
  rw [relocate, heldAt_erase, heldAt_put (G.orig_mem hc _) hhome]
  constructor
  · rintro ⟨hslot, hnew | ⟨-, hold⟩⟩
    · exact Or.inl hnew
    · exact Or.inr ⟨hslot, hold⟩
  · rintro (⟨rfl, rfl, rfl, rfl⟩ | ⟨hslot, hold⟩)
    · exact ⟨hne, Or.inl ⟨rfl, rfl, rfl, rfl⟩⟩
    · refine ⟨hslot, Or.inr ⟨?_, hold⟩⟩
      intro heq
      rw [HeldAt, heq, hempty] at hold
      exact Option.some_ne_none _ hold.symm

/-- **A move neither loses nor changes an entry.** -/
theorem held_relocate (hc : G.mem c) (hx : t c = some x)
    (hempty : t (G.slot (G.orig c x.offset) sub) = none) (hhome : G.mem home) :
    Held G (relocate G t c x sub) home tag w ↔ Held G t home tag w := by
  constructor
  · rintro ⟨j, hj⟩
    rcases (heldAt_relocate hc hx hempty hhome).mp hj with ⟨rfl, rfl, -, rfl⟩ | ⟨-, hold⟩
    · exact ⟨x.offset, held_of_cell hc hx⟩
    · exact ⟨j, hold⟩
  · rintro ⟨j, hj⟩
    by_cases hslot : G.slot home j = c
    · -- this is the entry that moves
      have hcell : x = ⟨j, tag, w⟩ := by
        rw [HeldAt, hslot, hx] at hj
        exact Option.some.inj hj
      subst hcell
      have hhome' : home = G.orig c j := by rw [← hslot, G.orig_slot hhome]
      exact ⟨sub, (heldAt_relocate hc hx hempty hhome).mpr (Or.inl ⟨hhome', rfl, rfl, rfl⟩)⟩
    · exact ⟨j, (heldAt_relocate hc hx hempty hhome).mpr (Or.inr ⟨hslot, hj⟩)⟩

/-- **Nor does it double one.** -/
theorem OnePlace.relocate (h : OnePlace G t) (hc : G.mem c) (hx : t c = some x)
    (hempty : t (G.slot (G.orig c x.offset) sub) = none) :
    OnePlace G (SlotTable.relocate G t c x sub) := by
  -- the entry that moves has left its old slot, which was its only one
  have hleft : ∀ {home tag j w}, home = G.orig c x.offset → tag = x.tag →
      G.slot home j ≠ c → ¬ HeldAt G t home tag j w := by
    rintro home tag j w rfl rfl hslot hold
    have hplace := h _ (G.orig_mem hc _) x.tag j x.offset w x.val hold (held_of_cell hc hx)
    exact hslot (by rw [hplace, G.slot_orig hc])
  intro home hhome tag i j v w hi hj
  rw [heldAt_relocate hc hx hempty hhome] at hi hj
  rcases hi with ⟨h1, h2, rfl, -⟩ | ⟨hislot, hi⟩ <;> rcases hj with ⟨h3, h4, rfl, -⟩ | ⟨hjslot, hj⟩
  · rfl
  · exact absurd hj (hleft h1 h2 hjslot)
  · exact absurd hi (hleft h3 h4 hislot)
  · exact h home hhome tag i j v w hi hj

end

end SlotTable
