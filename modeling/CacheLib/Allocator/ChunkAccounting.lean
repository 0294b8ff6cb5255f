/-
The accounting of an `AllocationClass`: in which places a chunk is, and what each
function of the class does to the number of places.

Membership alone would not do as an invariant: a chunk twice on the free list is in
one state and is still handed out twice. So the proof counts. `Class.weight` is the
number of occurrences inside the class and `System.weight` the number over all six
places. Each function then has one lemma that says which chunks come, go or only move.
-/
import Mathlib.Data.List.Nodup
import Mathlib.Tactic.SplitIfs
import CacheLib.Allocator.AllocationClass

set_option autoImplicit false

namespace CacheLib.AllocationClass

open Function List Option

variable {cfg : Config} {s : System} {slab b : Slab} {a : Alloc}

/-! ## Where a chunk is -/

/-- The slabs whose header names the class. -/
def Class.Owns (cfg : Config) (c : Class) (slab : Slab) : Prop :=
  (c.header slab).classId = some cfg.classId

/-- The same as a number. -/
def Class.owned (cfg : Config) (c : Class) (slab : Slab) : ℕ :=
  if (c.header slab).classId = some cfg.classId then 1 else 0

/-- The chunk is in the part of the current slab that is not carved yet. -/
def Class.inTail (cfg : Config) (c : Class) (a : Alloc) : Bool :=
  decide (c.currSlab = some a.1 ∧ c.currOffset ≤ a.2 * cfg.allocationSize ∧
    a.2 < cfg.allocsPerSlab)

/-- The chunk's bit in the release map of its slab is set. -/
def Class.recorded (cfg : Config) (c : Class) (a : Alloc) : Bool :=
  (c.slabReleaseAllocMap a.1).any (fun bits => bits a.2) && decide (a.2 < cfg.allocsPerSlab)

/-- The slab a `startSlabRelease` on its way is about. -/
def System.startingSlab (s : System) : Option Slab := s.starting.map Prod.fst

theorem System.startingSlab_eq {p : Class.Pruning}
    (hs : s.starting = some (slab, p)) : s.startingSlab = some slab := by
  simp [startingSlab, hs]

/-- What a `startSlabRelease` on its way has taken off the free list. -/
def System.offline (s : System) : List Alloc :=
  match s.starting with
  | some (_, .batch freeAllocs inSlab notInSlab) => freeAllocs ++ (inSlab ++ notInSlab)
  | _ => []

/-- The states of a chunk; the last is empty unless a call is in progress. -/
inductive ChunkState where
  | heldByUser
  | onFreeList
  | inTail
  | inFreeSlab
  | recordedFreed
  | beingPruned
  deriving DecidableEq, Repr

def System.InState (cfg : Config) (s : System) (a : Alloc) : ChunkState → Prop
  | .heldByUser => a ∈ s.held
  | .onFreeList => a ∈ s.cls.freedAllocations
  | .inTail => s.cls.inTail cfg a
  | .inFreeSlab => a.1 ∈ s.cls.freeSlabs ∧ a.2 < cfg.allocsPerSlab
  | .recordedFreed => s.cls.recorded cfg a
  | .beingPruned => a ∈ s.offline

/-- How often the chunk occurs in a place. -/
def System.occurrences (cfg : Config) (s : System) (a : Alloc) : ChunkState → ℕ
  | .heldByUser => s.held.count a
  | .onFreeList => s.cls.freedAllocations.count a
  | .inTail => (s.cls.inTail cfg a).toNat
  | .inFreeSlab => if a.2 < cfg.allocsPerSlab then s.cls.freeSlabs.count a.1 else 0
  | .recordedFreed => (s.cls.recorded cfg a).toNat
  | .beingPruned => s.offline.count a

theorem System.inState_iff (st : ChunkState) :
    s.InState cfg a st ↔ s.occurrences cfg a st ≠ 0 := by
  have hcount : ∀ {α : Type} [BEq α] [LawfulBEq α] (x : α) (l : List α),
      x ∈ l ↔ l.count x ≠ 0 :=
    fun x l => count_pos_iff.symm.trans Nat.pos_iff_ne_zero
  rcases st with _ | _ | _ | _ | _ | _ <;> simp only [System.InState, System.occurrences]
  · exact hcount a _
  · exact hcount a _
  · simp
  · rw [hcount a.1]
    by_cases hi : a.2 < cfg.allocsPerSlab <;> simp [hi]
  · simp
  · exact hcount a _

/-- How often the chunk occurs inside the class. -/
def Class.weight (cfg : Config) (c : Class) (a : Alloc) : ℕ :=
  c.freedAllocations.count a + (c.inTail cfg a).toNat
    + (if a.2 < cfg.allocsPerSlab then c.freeSlabs.count a.1 else 0)
    + (c.recorded cfg a).toNat

/-- How often it occurs at all. -/
def System.weight (cfg : Config) (s : System) (a : Alloc) : ℕ :=
  s.held.count a + s.offline.count a + s.cls.weight cfg a

/-- Two different places together hold no more than all of them. -/
theorem System.occurrences_add_le (s : System) (a : Alloc) {st st' : ChunkState} (h : st ≠ st') :
    s.occurrences cfg a st + s.occurrences cfg a st' ≤ s.weight cfg a := by
  unfold System.weight Class.weight
  rcases st <;> rcases st' <;> first
    | exact absurd rfl h
    | simp only [System.occurrences]; omega

/-- A chunk that does not occur is in no state: the six places add up to nothing. -/
theorem System.weight_eq_zero_iff :
    s.weight cfg a = 0 ↔ ∀ st, ¬ s.InState cfg a st := by
  have hstate : ∀ st, ¬ s.InState cfg a st ↔ s.occurrences cfg a st = 0 := by
    intro st
    rw [System.inState_iff st, not_not]
  simp only [hstate]
  unfold System.weight Class.weight
  constructor
  · intro h st
    cases st <;> simp only [System.occurrences] <;> omega
  · intro hzero
    have h1 := hzero .heldByUser
    have h2 := hzero .onFreeList
    have h3 := hzero .inTail
    have h4 := hzero .inFreeSlab
    have h5 := hzero .recordedFreed
    have h6 := hzero .beingPruned
    simp only [System.occurrences] at h1 h2 h3 h4 h5 h6
    omega

/-- A chunk that occurs once is in one state. -/
theorem System.exists_unique_state (h : s.weight cfg a = 1) :
    ∃! st, s.InState cfg a st := by
  have hsome : ∃ st, s.InState cfg a st := by
    by_contra hnone
    have hzero : s.weight cfg a = 0 := System.weight_eq_zero_iff.mpr (not_exists.mp hnone)
    omega
  obtain ⟨st, hst⟩ := hsome
  refine ⟨st, hst, ?_⟩
  intro st' hst'
  by_contra hne
  have hle : s.occurrences cfg a st' + s.occurrences cfg a st ≤ s.weight cfg a :=
    s.occurrences_add_le a hne
  have hpos := (System.inState_iff st).mp hst
  have hpos' := (System.inState_iff st').mp hst'
  omega

/-! ## The class alone -/

namespace Class

variable {c c' : Class}

/-- How often a slab occurs in the vectors and in the release map. -/
def slabWeight (c : Class) (b : Slab) : ℕ :=
  c.freeSlabs.count b + c.allocatedSlabs.count b + (c.slabReleaseAllocMap b).toList.length

/-- What the fields of the class say about each other. -/
structure Inv (cfg : Config) (c : Class) : Prop where
  /-- an owned slab is in one of the two vectors or in release -/
  slabs : ∀ b, c.slabWeight b = c.owned cfg b
  offset : cfg.allocationSize ∣ c.currOffset
  curr : ∀ b, c.currSlab = some b → b ∈ c.allocatedSlabs
  marked : ∀ b, (c.header b).markedForRelease = (c.slabReleaseAllocMap b).isSome

theorem owned_of_owns (h : c.Owns cfg b) : c.owned cfg b = 1 := if_pos h

theorem owned_of_not_owns (h : ¬ c.Owns cfg b) : c.owned cfg b = 0 := if_neg h

theorem owned_le_one (b : Slab) : c.owned cfg b ≤ 1 := by
  unfold owned
  split_ifs
  · exact Nat.le_refl 1
  · exact Nat.zero_le 1

theorem owns_of_owned (h : c.owned cfg b ≠ 0) : c.Owns cfg b := by
  by_contra hno
  exact h (owned_of_not_owns hno)

theorem owned_congr (h : c'.header b = c.header b) :
    c'.owned cfg b = c.owned cfg b := by
  unfold owned
  rw [h]

theorem Inv.owns_of_inRelease (h : c.Inv cfg)
    (hb : (c.slabReleaseAllocMap b).isSome) : c.Owns cfg b := by
  obtain ⟨bits, hbits⟩ := isSome_iff_exists.mp hb
  apply owns_of_owned
  have hslabs := h.slabs b
  rw [slabWeight, hbits, toList_some, length_singleton] at hslabs
  omega

/-- A slab in one of the vectors is not in release. -/
theorem Inv.not_inRelease (h : c.Inv cfg)
    (hb : b ∈ c.freeSlabs ∨ b ∈ c.allocatedSlabs) : c.slabReleaseAllocMap b = none := by
  have hslabs := h.slabs b
  have hone : c.owned cfg b ≤ 1 := owned_le_one b
  have hpos : 0 < c.freeSlabs.count b + c.allocatedSlabs.count b := by
    rcases hb with hb | hb
    · exact Nat.add_pos_left (count_pos_iff.mpr hb) _
    · exact Nat.add_pos_right _ (count_pos_iff.mpr hb)
  rw [slabWeight] at hslabs
  rcases hm : c.slabReleaseAllocMap b with _ | bits
  · rfl
  · rw [hm, toList_some, length_singleton] at hslabs
    omega

/-! ### Adding a slab -/

theorem addSlabLocked_owns {slab b : Slab} :
    (c.addSlabLocked cfg slab).Owns cfg b ↔ b = slab ∨ c.Owns cfg b := by
  by_cases hb : b = slab
  · simp [addSlabLocked, Owns, hb]
  · simp [addSlabLocked, Owns, hb]

/-- The chunks of the new slab come in, each once. -/
theorem addSlabLocked_weight (slab : Slab) (a : Alloc) :
    (c.addSlabLocked cfg slab).weight cfg a =
      c.weight cfg a + if a.2 < cfg.allocsPerSlab then [slab].count a.1 else 0 := by
  have htail : (c.addSlabLocked cfg slab).inTail cfg a = c.inTail cfg a := rfl
  have hrec : (c.addSlabLocked cfg slab).recorded cfg a = c.recorded cfg a := rfl
  have hfreed : (c.addSlabLocked cfg slab).freedAllocations = c.freedAllocations := rfl
  have hfree : (c.addSlabLocked cfg slab).freeSlabs = c.freeSlabs ++ [slab] := rfl
  rw [weight, weight, htail, hrec, hfreed, hfree, count_append]
  split_ifs <;> omega

theorem addSlabLocked_owned (hnew : (c.header slab).classId = none) (b : Slab) :
    (c.addSlabLocked cfg slab).owned cfg b = c.owned cfg b + [slab].count b := by
  by_cases hb : b = slab
  · subst hb
    rw [owned_of_owns (addSlabLocked_owns.mpr (Or.inl rfl)),
      owned_of_not_owns (by simp [Owns, hnew]), count_singleton_self]
  · rw [count_eq_zero.mpr (by simpa using hb)]
    exact owned_congr (update_of_ne hb _ _)

theorem addSlabLocked_inv (h : c.Inv cfg)
    (hnew : (c.header slab).classId = none) : (c.addSlabLocked cfg slab).Inv cfg := by
  refine ⟨?_, h.offset, h.curr, ?_⟩
  · intro b
    have hslabs := h.slabs b
    have hfree : (c.addSlabLocked cfg slab).freeSlabs = c.freeSlabs ++ [slab] := rfl
    rw [addSlabLocked_owned hnew, ← hslabs, slabWeight, slabWeight, hfree, count_append]
    change _ + c.allocatedSlabs.count b + (c.slabReleaseAllocMap b).toList.length = _
    omega
  · intro b
    by_cases hb : b = slab
    · subst hb
      simpa only [addSlabLocked, update_self] using h.marked b
    · simpa only [addSlabLocked, update_of_ne hb] using h.marked b

/-! ### Allocating -/

/-- What an allocation does to a class. -/
structure Allocates (cfg : Config) (c : Class) (out : Option Alloc × Class) : Prop where
  inv : out.2.Inv cfg
  weight : ∀ a, out.1.toList.count a + out.2.weight cfg a = c.weight cfg a
  header : out.2.header = c.header
  allocMap : out.2.slabReleaseAllocMap = c.slabReleaseAllocMap
  freed : out.2.freedAllocations ⊆ c.freedAllocations
  source : ∀ a, out.1 = some a → a ∈ c.freedAllocations ∨ c.slabReleaseAllocMap a.1 = none

/-- With no room left in the current slab there is no tail. -/
theorem inTail_eq_false (h : c.canAllocateFromCurrentSlab cfg = false) (a : Alloc) :
    c.inTail cfg a = false := by
  rw [inTail, decide_eq_false_iff_not]
  rintro ⟨hslab, hoff, hidx⟩
  have hroom : cfg.slabSize < c.currOffset + cfg.allocationSize := by
    simpa [canAllocateFromCurrentSlab, hslab] using h
  have hfit : (a.2 + 1) * cfg.allocationSize ≤ cfg.slabSize :=
    (Nat.le_div_iff_mul_le cfg.allocationSize_pos).mp hidx
  rw [Nat.add_mul, Nat.one_mul] at hfit
  omega

/-- Carving takes the first chunk of the tail. -/
theorem allocateFromCurrentSlab_allocates (h : c.Inv cfg)
    (hcan : c.canAllocateFromCurrentSlab cfg = true) :
    c.Allocates cfg (c.allocateFromCurrentSlab cfg) := by
  obtain ⟨hsome, hroom⟩ := Bool.and_eq_true_iff.mp hcan
  obtain ⟨slab, hslab⟩ := isSome_iff_exists.mp hsome
  obtain ⟨q, hq⟩ := h.offset
  have hroom : c.currOffset + cfg.allocationSize ≤ cfg.slabSize := of_decide_eq_true hroom
  have hlt : q < cfg.allocsPerSlab := by
    apply (Nat.le_div_iff_mul_le cfg.allocationSize_pos).mpr
    rw [Nat.succ_mul, Nat.mul_comm q]
    omega
  have hout : (c.allocateFromCurrentSlab cfg).1 = some (slab, q) := by
    simp [allocateFromCurrentSlab, hslab, memoryAtOffset, hq,
      Nat.mul_div_cancel_left q cfg.allocationSize_pos]
  refine ⟨⟨h.slabs, ?_, h.curr, h.marked⟩, ?_, rfl, rfl, List.Subset.refl _, ?_⟩
  · exact Nat.dvd_add h.offset (Nat.dvd_refl _)
  · intro a
    -- offsets are multiples of the size, so they compare as the indices do
    have hle : ∀ k, k * cfg.allocationSize ≤ a.2 * cfg.allocationSize ↔ k ≤ a.2 :=
      fun k => Nat.mul_le_mul_right_iff cfg.allocationSize_pos
    have hoff : c.currOffset = q * cfg.allocationSize := by rw [hq, Nat.mul_comm]
    have hoff' : c.currOffset + cfg.allocationSize = (q + 1) * cfg.allocationSize := by
      rw [hoff, Nat.add_mul, Nat.one_mul]
    have htail : ((c.allocateFromCurrentSlab cfg).2.inTail cfg a).toNat
        + [(slab, q)].count a = (c.inTail cfg a).toNat := by
      unfold inTail allocateFromCurrentSlab
      simp only [hslab, hoff', hle, some.injEq]
      rw [hoff]
      simp only [hle]
      by_cases ha : (slab, q) = a
      · subst ha
        simp [hlt]
      · rw [count_eq_zero.mpr (by simpa using fun e : a = (slab, q) => ha e.symm)]
        have hne : slab = a.1 → q ≠ a.2 := fun h1 h2 => ha (Prod.ext h1 h2)
        rw [Nat.add_zero]
        congr 1
        rw [decide_eq_decide]
        constructor
        · rintro ⟨h1, h2, h3⟩
          exact ⟨h1, by omega, h3⟩
        · rintro ⟨h1, h2, h3⟩
          have := hne h1
          exact ⟨h1, by omega, h3⟩
    rw [hout, toList_some]
    change _ + (c.freedAllocations.count a + _ + _ + (c.recorded cfg a).toNat) = _
    unfold weight
    rw [← htail]
    change _ + (_ + _ + (if a.2 < cfg.allocsPerSlab then c.freeSlabs.count a.1 else 0) + _) = _
    omega
  · intro a ha
    rw [hout, some.injEq] at ha
    subst ha
    exact Or.inr (h.not_inRelease (Or.inr (h.curr slab hslab)))

theorem setupCurrentSlab_spec (h : c.Inv cfg) (hne : c.freeSlabs ≠ [])
    (hfull : c.canAllocateFromCurrentSlab cfg = false) :
    c.setupCurrentSlab.Inv cfg ∧
      c.setupCurrentSlab.canAllocateFromCurrentSlab cfg = true ∧
      (∀ a, c.setupCurrentSlab.weight cfg a = c.weight cfg a) ∧
      c.setupCurrentSlab.header = c.header ∧
      c.setupCurrentSlab.slabReleaseAllocMap = c.slabReleaseAllocMap ∧
      c.setupCurrentSlab.freedAllocations = c.freedAllocations := by
  -- The slab is taken from the back of the vector.
  obtain ⟨front, slab, hfree⟩ : ∃ front slab, c.freeSlabs = front ++ [slab] := by
    rcases eq_nil_or_concat c.freeSlabs with hnil | ⟨front, slab, hconcat⟩
    · exact absurd hnil hne
    · exact ⟨front, slab, by rw [hconcat, concat_eq_append]⟩
  have hset : c.setupCurrentSlab = { c with
      freeSlabs := front
      currSlab := some slab
      currOffset := 0
      allocatedSlabs := c.allocatedSlabs ++ [slab] } := by
    simp [setupCurrentSlab, hfree]
  rw [hset]
  refine ⟨⟨?_, Nat.dvd_zero _, ?_, h.marked⟩, ?_, ?_, rfl, rfl, rfl⟩
  · intro b
    have hslabs := h.slabs b
    rw [slabWeight, hfree, count_append] at hslabs
    change _ = c.owned cfg b
    rw [← hslabs]
    simp only [slabWeight, count_append]
    omega
  · intro b hb
    rw [some.injEq] at hb
    simp [hb]
  · simpa [canAllocateFromCurrentSlab] using cfg.allocationSize_le
  · intro a
    have hcount : [slab].count a.1 = if slab = a.1 then 1 else 0 := by
      rw [count_singleton]
      simp only [beq_iff_eq]
    unfold weight
    -- The old tail is used up, and the new one has the chunks the free slab had.
    rw [inTail_eq_false hfull a, hfree, count_append, hcount]
    simp only [inTail, recorded, some.injEq, Nat.zero_le, true_and]
    by_cases hs : slab = a.1 <;> by_cases hi : a.2 < cfg.allocsPerSlab <;>
      simp [hs, hi]
    omega

theorem allocateLocked_allocates (h : c.Inv cfg) : c.Allocates cfg (c.allocateLocked cfg) := by
  unfold allocateLocked
  by_cases hnothing : (c.freedAllocations.isEmpty && c.freeSlabs.isEmpty
      && !c.canAllocateFromCurrentSlab cfg) = true
  · rw [if_pos hnothing]
    refine ⟨⟨h.slabs, h.offset, h.curr, h.marked⟩, ?_, rfl, rfl, List.Subset.refl _, ?_⟩
    · intro a
      exact Nat.zero_add _
    · intro a ha
      exact absurd ha (by simp)
  rw [if_neg hnothing]
  rcases hfreed : c.freedAllocations with _ | ⟨alloc, rest⟩
  · by_cases hcan : c.canAllocateFromCurrentSlab cfg = true
    · simp only [hcan, if_true]
      exact allocateFromCurrentSlab_allocates h hcan
    · have hfull : c.canAllocateFromCurrentSlab cfg = false := by simpa using hcan
      have hne : c.freeSlabs ≠ [] := by
        intro hnil
        exact hnothing (by simp [hfreed, hnil, hfull])
      obtain ⟨hinv, hcan', hweight, hheader, hmap, hfreed'⟩ := setupCurrentSlab_spec h hne hfull
      have hallocates := allocateFromCurrentSlab_allocates hinv hcan'
      simp only [hfull, Bool.false_eq_true, if_false]
      refine ⟨hallocates.inv, ?_, hallocates.header.trans hheader,
        hallocates.allocMap.trans hmap, hfreed' ▸ hallocates.freed, ?_⟩
      · intro a
        rw [hallocates.weight a, hweight a]
      · intro a ha
        rw [← hmap, ← hfreed']
        exact hallocates.source a ha
  · -- the head of the free list
    refine ⟨⟨h.slabs, h.offset, h.curr, h.marked⟩, ?_, rfl, rfl, ?_, ?_⟩
    · intro a
      change [alloc].count a + (rest.count a + (c.inTail cfg a).toNat
        + (if a.2 < cfg.allocsPerSlab then c.freeSlabs.count a.1 else 0)
        + (c.recorded cfg a).toNat) = _
      have hcons : (alloc :: rest).count a = [alloc].count a + rest.count a := by
        rw [← count_append, singleton_append]
      unfold weight
      rw [hfreed, hcons]
      omega
    · rw [hfreed]
      exact subset_cons_self alloc rest
    · intro a ha
      rw [some.injEq] at ha
      exact Or.inl (by rw [hfreed, ← ha]; exact mem_cons_self)

theorem allocate_allocates (h : c.Inv cfg) : c.Allocates cfg (c.allocate cfg) := by
  unfold allocate
  split_ifs with hhint
  · refine ⟨h, fun a => Nat.zero_add _, rfl, rfl, List.Subset.refl _, ?_⟩
    intro a ha
    exact absurd ha (by simp)
  · exact allocateLocked_allocates h

/-! ### Recording freed chunks -/

theorem recorded_congr (h : c'.slabReleaseAllocMap a.1 = c.slabReleaseAllocMap a.1) :
    c'.recorded cfg a = c.recorded cfg a := by
  unfold recorded
  rw [h]

theorem recorded_of_map {bits : ℕ → Bool} (h : c.slabReleaseAllocMap a.1 = some bits) :
    c.recorded cfg a = (bits a.2 && decide (a.2 < cfg.allocsPerSlab)) := by
  unfold recorded
  rw [h, any_some]

theorem recorded_of_none (h : c.slabReleaseAllocMap a.1 = none) :
    c.recorded cfg a = false := by
  unfold recorded
  rw [h, any_none, Bool.false_and]

/-- The class with other bits for a slab in release. -/
def setBits (c : Class) (slab : Slab) (bits : ℕ → Bool) : Class :=
  { c with slabReleaseAllocMap := update c.slabReleaseAllocMap slab (some bits) }

theorem setBits_isSome (bits : ℕ → Bool) (hs : (c.slabReleaseAllocMap slab).isSome)
    (b : Slab) :
    ((c.setBits slab bits).slabReleaseAllocMap b).isSome = (c.slabReleaseAllocMap b).isSome := by
  by_cases hb : b = slab
  · subst hb
    simp [setBits, hs]
  · simp [setBits, update_of_ne hb]

theorem Inv.setBits (h : c.Inv cfg) (bits : ℕ → Bool)
    (hs : (c.slabReleaseAllocMap slab).isSome) : (c.setBits slab bits).Inv cfg := by
  have hlen : ∀ o : Option (ℕ → Bool), o.toList.length = o.isSome.toNat := by
    rintro (_ | _) <;> rfl
  refine ⟨?_, h.offset, h.curr, ?_⟩
  · intro b
    have hslabs := h.slabs b
    rw [slabWeight, hlen] at hslabs
    rw [slabWeight, hlen, setBits_isSome bits hs]
    exact hslabs
  · intro b
    rw [setBits_isSome bits hs]
    exact h.marked b

/-! ### A slab leaves -/

/-- What it means for a slab to leave the class: its chunks go, each once. -/
structure Leaves (cfg : Config) (c : Class) (slab : Slab) (c' : Class) : Prop where
  inv : c'.Inv cfg
  weight : ∀ a, c'.weight cfg a + (if a.2 < cfg.allocsPerSlab then [slab].count a.1 else 0)
    = c.weight cfg a
  owned : ∀ b, c'.owned cfg b + [slab].count b = c.owned cfg b
  freed : c'.freedAllocations = c.freedAllocations

private theorem owned_leave (hown : c.Owns cfg slab)
    (hself : (c'.header slab).classId = none)
    (hother : ∀ b, b ≠ slab → c'.header b = c.header b) (b : Slab) :
    c'.owned cfg b + [slab].count b = c.owned cfg b := by
  by_cases hb : b = slab
  · subst hb
    rw [owned_of_owns hown, owned_of_not_owns (by simp [Owns, hself]),
      count_singleton_self]
  · rw [count_eq_zero.mpr (by simpa using hb)]
    exact owned_congr (hother b hb)

theorem recorded_forgetSlab
    (hall : ∀ i < cfg.allocsPerSlab, c.recorded cfg (slab, i) = true) (a : Alloc) :
    ((c.forgetSlab slab).recorded cfg a).toNat
      + (if a.2 < cfg.allocsPerSlab then [slab].count a.1 else 0)
      = (c.recorded cfg a).toNat := by
  by_cases ha : a.1 = slab
  · have hnone : (c.forgetSlab slab).recorded cfg a = false :=
      recorded_of_none (by simp [forgetSlab, ha])
    rw [hnone, ha, count_singleton_self]
    by_cases hi : a.2 < cfg.allocsPerSlab
    · have hyes : c.recorded cfg a = true := by
        have hslab := hall a.2 hi
        rwa [← ha] at hslab
      simp [hi, hyes]
    · -- No chunk of the slab has this number, and nothing is recorded of it.
      have hno : c.recorded cfg a = false := by simp [recorded, hi]
      simp [hi, hno]
  · have hsame : (c.forgetSlab slab).recorded cfg a = c.recorded cfg a :=
      recorded_congr (by simp [forgetSlab, update_of_ne ha])
    rw [count_eq_zero.mpr (by simpa using ha), hsame]
    simp

/-- A slab whose chunks are all recorded can be forgotten. -/
theorem forgetSlab_leaves (h : c.Inv cfg)
    (hs : (c.slabReleaseAllocMap slab).isSome)
    (hall : ∀ i < cfg.allocsPerSlab, c.recorded cfg (slab, i) = true) :
    c.Leaves cfg slab (c.forgetSlab slab) := by
  have howned : ∀ b, (c.forgetSlab slab).owned cfg b + [slab].count b = c.owned cfg b :=
    owned_leave (h.owns_of_inRelease hs) (by simp [forgetSlab])
      (fun b hb => by simp [forgetSlab, update_of_ne hb])
  refine ⟨⟨?_, h.offset, h.curr, ?_⟩, ?_, howned, rfl⟩
  · intro b
    have hslabs := h.slabs b
    have hown := howned b
    rw [slabWeight] at hslabs ⊢
    by_cases hb : b = slab
    · subst hb
      obtain ⟨bits, hbits⟩ := isSome_iff_exists.mp hs
      rw [hbits, toList_some, length_singleton] at hslabs
      rw [count_singleton_self] at hown
      simp only [forgetSlab, update_self, toList_none, length_nil] at hown ⊢
      omega
    · rw [count_eq_zero.mpr (by simpa using hb)] at hown
      simp only [forgetSlab, update_of_ne hb] at hown ⊢
      omega
  · intro b
    by_cases hb : b = slab
    · subst hb
      simp [forgetSlab]
    · simpa [forgetSlab, update_of_ne hb] using h.marked b
  · intro a
    have hrec := recorded_forgetSlab hall a
    change c.freedAllocations.count a + (c.inTail cfg a).toNat
      + (if a.2 < cfg.allocsPerSlab then c.freeSlabs.count a.1 else 0) + _ + _ = _
    unfold weight
    omega

/-- Starting the release of a slab that is wholly free. -/
theorem release_free_leaves (h : c.Inv cfg) (hmem : slab ∈ c.freeSlabs)
    (hown : c.Owns cfg slab) :
    c.Leaves cfg slab { c with
      freeSlabs := swapRemove slab c.freeSlabs
      header := update c.header slab
        { c.header slab with classId := none, allocSize := 0 } } := by
  have hcount := swapRemove_count hmem
  have howned : ∀ b, owned cfg { c with
      freeSlabs := swapRemove slab c.freeSlabs
      header := update c.header slab
        { c.header slab with classId := none, allocSize := 0 } } b + [slab].count b
      = c.owned cfg b :=
    owned_leave hown (by simp) (fun b hb => by simp [update_of_ne hb])
  refine ⟨⟨?_, h.offset, h.curr, ?_⟩, ?_, howned, rfl⟩
  · intro b
    have hslabs := h.slabs b
    have hb := hcount b
    have hown' := howned b
    rw [slabWeight] at hslabs
    change (swapRemove slab c.freeSlabs).count b + c.allocatedSlabs.count b
      + (c.slabReleaseAllocMap b).toList.length = _
    omega
  · intro b
    by_cases hb : b = slab
    · subst hb
      simpa using h.marked b
    · simpa [update_of_ne hb] using h.marked b
  · intro a
    have ha := hcount a.1
    unfold weight
    simp only [inTail, recorded]
    split_ifs <;> omega

/-! ### Starting and aborting a release -/

/-- What marking a slab does: it moves to the release map, with the chunks of its
tail recorded. -/
structure Begins (cfg : Config) (c : Class) (slab : Slab) (c' : Class) : Prop where
  inv : c'.Inv cfg
  weight : ∀ a, c'.weight cfg a = c.weight cfg a
  owned : ∀ b, c'.owned cfg b = c.owned cfg b
  fresh : c.slabReleaseAllocMap slab = none
  allocMap : ∀ b, (c'.slabReleaseAllocMap b).isSome ↔
    b = slab ∨ (c.slabReleaseAllocMap b).isSome
  freed : c'.freedAllocations = c.freedAllocations

/-- The class with a slab moved to the release map; `curr` is whether it was the
current one. -/
def moveToRelease (c : Class) (slab : Slab) (bits : ℕ → Bool) (currSlab : Option Slab)
    (currOffset : ℕ) : Class :=
  { c with
    header := update c.header slab { c.header slab with markedForRelease := true }
    slabReleaseAllocMap := update c.slabReleaseAllocMap slab (some bits)
    allocatedSlabs := swapRemove slab c.allocatedSlabs
    currSlab := currSlab
    currOffset := currOffset }

theorem moveToRelease_begins (h : c.Inv cfg) (hmem : slab ∈ c.allocatedSlabs)
    {bits : ℕ → Bool} {currSlab : Option Slab} {currOffset : ℕ}
    (hoff : cfg.allocationSize ∣ currOffset)
    (hcurr : ∀ b, currSlab = some b → c.currSlab = some b ∧ b ≠ slab)
    (htail : ∀ a, ((c.moveToRelease slab bits currSlab currOffset).inTail cfg a).toNat
      + ((c.moveToRelease slab bits currSlab currOffset).recorded cfg a).toNat
      = (c.inTail cfg a).toNat + (c.recorded cfg a).toNat) :
    c.Begins cfg slab (c.moveToRelease slab bits currSlab currOffset) := by
  have hfresh := h.not_inRelease (Or.inr hmem)
  have howned : ∀ b, (c.moveToRelease slab bits currSlab currOffset).owned cfg b
      = c.owned cfg b := by
    intro b
    unfold owned
    by_cases hb : b = slab
    · subst hb
      simp [moveToRelease]
    · simp [moveToRelease, update_of_ne hb]
  refine ⟨⟨?_, hoff, ?_, ?_⟩, ?_, howned, hfresh, ?_, rfl⟩
  · intro b
    have hslabs := h.slabs b
    have hcount := swapRemove_count hmem b
    rw [howned, ← hslabs, slabWeight, slabWeight]
    by_cases hb : b = slab
    · subst hb
      rw [count_singleton_self] at hcount
      simp only [moveToRelease, update_self, hfresh, toList_some,
        toList_none, length_singleton, length_nil]
      omega
    · have hother : [slab].count b = 0 := count_eq_zero.mpr (by simpa using hb)
      simp only [moveToRelease, update_of_ne hb]
      omega
  · intro b hb
    obtain ⟨hb, hne⟩ := hcurr b hb
    -- The current slab is another one, and that has not left the vector.
    have hmem' : b ∈ slab :: swapRemove slab c.allocatedSlabs :=
      (cons_swapRemove_perm hmem).symm.subset (h.curr b hb)
    exact (mem_cons.mp hmem').resolve_left hne
  · intro b
    by_cases hb : b = slab
    · subst hb
      simp [moveToRelease]
    · simpa [moveToRelease, update_of_ne hb] using h.marked b
  · intro a
    have ht := htail a
    rw [Class.weight, Class.weight]
    change c.freedAllocations.count a + _
      + (if a.2 < cfg.allocsPerSlab then c.freeSlabs.count a.1 else 0) + _ = _
    omega
  · intro b
    by_cases hb : b = slab
    · subst hb
      simp [moveToRelease]
    · simp [moveToRelease, hb]

/-- The two errors after the slab is marked do not occur. -/
theorem beginSlabRelease_cases (h : c.Inv cfg) (hint : Option Slab) (random : ℕ) :
    (∃ e, c.beginSlabRelease cfg hint random = (c, .failed e)) ∨
      (∃ slab c', c.beginSlabRelease cfg hint random = (c', .released slab) ∧
        c.Leaves cfg slab c' ∧ c'.slabReleaseAllocMap = c.slabReleaseAllocMap) ∨
      ∃ slab c', c.beginSlabRelease cfg hint random = (c', .pruning slab) ∧
        c.Begins cfg slab c' := by
  unfold beginSlabRelease
  rcases hint.or (c.getSlabForRelease random) with _ | slab
  · exact Or.inl ⟨_, rfl⟩
  dsimp only
  by_cases hbad : ((c.header slab).classId ≠ some cfg.classId || (c.header slab).markedForRelease)
      = true
  · rw [if_pos hbad]
    exact Or.inl ⟨_, rfl⟩
  rw [if_neg hbad]
  have hown : c.Owns cfg slab := by
    by_contra hno
    exact hbad (by simp [show (c.header slab).classId ≠ some cfg.classId from hno])
  have hunmarked : (c.header slab).markedForRelease = false := by
    by_contra hyes
    exact hbad (by simp [show (c.header slab).markedForRelease = true by simpa using hyes])
  have hnone : c.slabReleaseAllocMap slab = none := by
    rw [← not_isSome_iff_eq_none, ← h.marked, hunmarked]
    exact Bool.false_ne_true
  by_cases hfree : slab ∈ c.freeSlabs
  · rw [if_pos hfree]
    exact Or.inr (Or.inl ⟨slab, _, rfl, release_free_leaves h hfree hown, rfl⟩)
  rw [if_neg hfree, if_neg (by simp [hnone])]
  have hmem : slab ∈ c.allocatedSlabs := by
    have hslabs := h.slabs slab
    rw [owned_of_owns hown, slabWeight, count_eq_zero.mpr hfree, hnone] at hslabs
    simp only [toList_none, length_nil, Nat.zero_add, Nat.add_zero] at hslabs
    exact count_pos_iff.mp (by omega)
  rw [if_neg (not_not.mpr hmem)]
  refine Or.inr (Or.inr ?_)
  by_cases hcurr : c.currSlab = some slab
  · rw [if_pos hcurr]
    refine ⟨slab, _, rfl, moveToRelease_begins h hmem (Nat.dvd_zero _) (by simp) ?_⟩
    intro a
    obtain ⟨q, hq⟩ := h.offset
    have hdiv : c.currOffset / cfg.allocationSize = q := by
      rw [hq, Nat.mul_div_cancel_left q cfg.allocationSize_pos]
    have hle : c.currOffset ≤ a.2 * cfg.allocationSize ↔ q ≤ a.2 := by
      rw [hq, Nat.mul_comm, Nat.mul_le_mul_right_iff cfg.allocationSize_pos]
    by_cases ha : a.1 = slab
    · -- the bits that are set are those of the tail
      simp only [inTail, recorded, moveToRelease, ha, update_self, hnone, hcurr, hdiv,
        hle, any_some, any_none]
      by_cases hq' : q ≤ a.2 <;> by_cases hi : a.2 < cfg.allocsPerSlab <;> simp [hq', hi]
    · have hne : slab ≠ a.1 := fun e => ha e.symm
      simp [inTail, recorded, moveToRelease, update_of_ne ha, hcurr, hne]
  · rw [if_neg hcurr]
    refine ⟨slab, _, rfl, moveToRelease_begins h hmem h.offset ?_ ?_⟩
    · intro b hb
      exact ⟨hb, fun e => hcurr (e ▸ hb)⟩
    · intro a
      by_cases ha : a.1 = slab
      · have hno : c.recorded cfg a = false := recorded_of_none (by rw [ha, hnone])
        have hno' : (c.moveToRelease slab (fun _ => false) c.currSlab c.currOffset).recorded cfg a
            = false := by
          simp [recorded, moveToRelease, ha]
        rw [hno, hno']
        rfl
      · have hsame : (c.moveToRelease slab (fun _ => false) c.currSlab c.currOffset).recorded
            cfg a = c.recorded cfg a :=
          recorded_congr (update_of_ne ha _ _)
        rw [hsame]
        rfl

theorem count_foldl_cons (slab : Slab) (idxs : List ℕ) (l : List Alloc) (a : Alloc) :
    (idxs.foldl (fun l i => (slab, i) :: l) l).count a
      = l.count a + if a.1 = slab then idxs.count a.2 else 0 := by
  induction idxs generalizing l with
  | nil => simp
  | cons i idxs ih =>
      have hpair : ((slab, i) == a) = (decide (a.1 = slab) && (i == a.2)) := by
        rw [Bool.eq_iff_iff]
        simp only [beq_iff_eq, Bool.and_eq_true, decide_eq_true_eq, Prod.ext_iff]
        exact and_congr_left' eq_comm
      rw [foldl_cons, ih, count_cons, count_cons, hpair]
      by_cases ha : a.1 = slab <;> simp [ha]
      omega

/-- Aborting puts the recorded chunks on the free list and the slab back. -/
theorem abortSlabRelease_spec (h : c.Inv cfg)
    (hs : (c.slabReleaseAllocMap slab).isSome) :
    (c.abortSlabRelease cfg slab).Inv cfg ∧
      (∀ a, (c.abortSlabRelease cfg slab).weight cfg a = c.weight cfg a) ∧
      (∀ b, (c.abortSlabRelease cfg slab).owned cfg b = c.owned cfg b) ∧
      (c.abortSlabRelease cfg slab).slabReleaseAllocMap
        = update c.slabReleaseAllocMap slab none ∧
      ∀ a ∈ (c.abortSlabRelease cfg slab).freedAllocations, a.1 = slab ∨
        a ∈ c.freedAllocations := by
  obtain ⟨bits, hbits⟩ := isSome_iff_exists.mp hs
  have hcount : ∀ a, (c.abortSlabRelease cfg slab).freedAllocations.count a
      = c.freedAllocations.count a
        + if a.1 = slab then ((range cfg.allocsPerSlab).filter bits).count a.2 else 0 := by
    intro a
    simp only [abortSlabRelease, hbits]
    exact count_foldl_cons slab _ _ a
  have howned : ∀ b, (c.abortSlabRelease cfg slab).owned cfg b = c.owned cfg b := by
    intro b
    by_cases hb : b = slab
    · subst hb
      rw [owned_of_owns (h.owns_of_inRelease hs)]
      exact owned_of_owns (by simp [Owns, abortSlabRelease])
    · exact owned_congr (update_of_ne hb _ _)
  refine ⟨⟨?_, h.offset, ?_, ?_⟩, ?_, howned, rfl, ?_⟩
  · intro b
    have hslabs := h.slabs b
    rw [howned, ← hslabs, slabWeight, slabWeight]
    simp only [abortSlabRelease, count_append]
    by_cases hb : b = slab
    · subst hb
      simp only [count_singleton_self, update_self, hbits, toList_none,
        toList_some, length_nil, length_singleton]
      omega
    · have hother : [slab].count b = 0 := count_eq_zero.mpr (by simpa using hb)
      simp only [update_of_ne hb, hother]
      omega
  · intro b hb
    exact mem_append_left _ (h.curr b hb)
  · intro b
    by_cases hb : b = slab
    · subst hb
      simp [abortSlabRelease]
    · simpa [abortSlabRelease, update_of_ne hb] using h.marked b
  · intro a
    have hrec : (if a.1 = slab then ((range cfg.allocsPerSlab).filter bits).count a.2 else 0)
        + ((c.abortSlabRelease cfg slab).recorded cfg a).toNat = (c.recorded cfg a).toNat := by
      by_cases ha : a.1 = slab
      · have hnone : (c.abortSlabRelease cfg slab).recorded cfg a = false :=
          recorded_of_none (by simp [abortSlabRelease, ha])
        rw [if_pos ha, hnone, recorded_of_map (by rw [ha, hbits])]
        -- the indices of the range are distinct, so a recorded one is there once
        have hnodup : ((range cfg.allocsPerSlab).filter bits).Nodup :=
          nodup_range.filter _
        by_cases hmem : a.2 ∈ (range cfg.allocsPerSlab).filter bits
        · rw [count_eq_one_of_mem hnodup hmem]
          obtain ⟨hi, hb⟩ := mem_filter.mp hmem
          simp [hb, mem_range.mp hi]
        · rw [count_eq_zero.mpr hmem]
          have hno : (bits a.2 && decide (a.2 < cfg.allocsPerSlab)) = false := by
            by_contra hyes
            apply hmem
            simpa [and_comm] using hyes
          rw [hno]
          rfl
      · have hsame : (c.abortSlabRelease cfg slab).recorded cfg a = c.recorded cfg a :=
          recorded_congr (update_of_ne ha _ _)
        rw [if_neg ha, hsame, Nat.zero_add]
    have hfreed := hcount a
    rw [Class.weight, Class.weight]
    change _ + (c.inTail cfg a).toNat
      + (if a.2 < cfg.allocsPerSlab then c.freeSlabs.count a.1 else 0) + _ = _
    omega
  · intro a ha
    by_cases hslab : a.1 = slab
    · exact Or.inl hslab
    · have hpos := count_pos_iff.mpr ha
      rw [hcount a, if_neg hslab, Nat.add_zero] at hpos
      exact Or.inr (count_pos_iff.mp hpos)

/-! ### Pruning -/

/-- What holds of the lists of a `startSlabRelease` on its way. -/
def Pruned (cfg : Config) (c : Class) (slab : Slab) : Pruning → Prop
  | .swap => True
  | .batch freeAllocs inSlab notInSlab =>
      (∀ a ∈ freeAllocs, (c.slabReleaseAllocMap a.1).isSome → a.1 = slab) ∧
        (∀ a ∈ inSlab, a.1 = slab) ∧ ∀ a ∈ notInSlab, c.slabReleaseAllocMap a.1 = none
  | .collect => True
  | .finish activeAllocations =>
      ∀ i < cfg.allocsPerSlab, c.recorded cfg (slab, i) = false → (slab, i) ∈ activeAllocations
  | .aborted => False

theorem Pruned.mono {p : Pruning} (h : c.Pruned cfg slab p)
    (hmap : ∀ b, (c'.slabReleaseAllocMap b).isSome → (c.slabReleaseAllocMap b).isSome)
    (hrec : ∀ i, c.recorded cfg (slab, i) = true → c'.recorded cfg (slab, i) = true) :
    c'.Pruned cfg slab p := by
  rcases p with _ | ⟨freeAllocs, inSlab, notInSlab⟩ | _ | activeAllocations | _
  · trivial
  · obtain ⟨hfree, hin, hnot⟩ := h
    refine ⟨fun a ha hb => hfree a ha (hmap a.1 hb), hin, ?_⟩
    intro a ha
    by_contra hne
    have hsome := hmap a.1 (isSome_iff_ne_none.mpr hne)
    rw [hnot a ha] at hsome
    exact absurd hsome (by simp)
  · trivial
  · intro i hi hno
    apply h i hi
    by_contra hyes
    rw [hrec i (by simpa using hyes)] at hno
    exact absurd hno (by simp)
  · exact h

end Class

end CacheLib.AllocationClass
