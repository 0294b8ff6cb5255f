/-
A `startSlabRelease` that is told to abort does not undo what it has done.

`pruneFreeAllocs` says that it undoes everything, and it does put back the lists it
has taken off the class. Two effects of the call lie outside of it. The first
locked section of `startSlabRelease` takes the slab out of `allocatedSlabs`, and
nothing puts it back, as `abortSlabRelease` does. And the release map of the slab
is erased with the chunks it records: those of the uncarved tail, those pruned in
the batches before the abort and those freed in the meantime.

The chunks that are lost are exactly the ones the map records.
-/
import CacheLib.Allocator.ChunkPartition

set_option autoImplicit false

namespace CacheLib.AllocationClass

open Transition List Option Function

variable {cfg : Config}

/-! ## Where a slab is -/

/-- How often a slab occurs in the two vectors. -/
def Class.listed (c : Class) (b : Slab) : ℕ := c.allocatedSlabs.count b + c.freeSlabs.count b

/-- The same with the slab of a call on its way and those of the contexts. -/
def System.slabPlaces (s : System) (b : Slab) : ℕ :=
  s.cls.listed b + s.startingSlab.toList.count b + s.contexts.count b

/-- A slab is in one place at most, and only if its header names the class. -/
def System.Placed (cfg : Config) (s : System) : Prop :=
  ∀ b, s.slabPlaces b ≤ s.cls.owned cfg b

namespace Class

variable {c : Class}

theorem setupCurrentSlab_listed (b : Slab) : c.setupCurrentSlab.listed b = c.listed b := by
  rcases eq_nil_or_concat c.freeSlabs with hnil | ⟨front, slab, hconcat⟩
  · simp [setupCurrentSlab, hnil]
  · rw [concat_eq_append] at hconcat
    have hset : c.setupCurrentSlab = { c with
        freeSlabs := front
        currSlab := some slab
        currOffset := 0
        allocatedSlabs := c.allocatedSlabs ++ [slab] } := by
      simp [setupCurrentSlab, hconcat]
    rw [hset]
    simp only [listed, hconcat, count_append]
    omega

theorem setupCurrentSlab_header : c.setupCurrentSlab.header = c.header := by
  unfold setupCurrentSlab
  split <;> rfl

/-- An allocation at most moves a slab from one vector to the other. -/
theorem allocateLocked_listed (b : Slab) :
    (c.allocateLocked cfg).2.listed b = c.listed b ∧
      (c.allocateLocked cfg).2.header = c.header := by
  unfold allocateLocked
  by_cases hnothing : (c.freedAllocations.isEmpty && c.freeSlabs.isEmpty
      && !c.canAllocateFromCurrentSlab cfg) = true
  · rw [if_pos hnothing]
    exact ⟨rfl, rfl⟩
  rw [if_neg hnothing]
  rcases c.freedAllocations with _ | ⟨alloc, rest⟩
  · by_cases hcan : c.canAllocateFromCurrentSlab cfg = true
    · simp only [hcan, if_true]
      exact ⟨rfl, rfl⟩
    · simp only [hcan]
      exact ⟨setupCurrentSlab_listed b, setupCurrentSlab_header⟩
  · exact ⟨rfl, rfl⟩

theorem allocate_listed (b : Slab) :
    (c.allocate cfg).2.listed b = c.listed b ∧ (c.allocate cfg).2.header = c.header := by
  unfold allocate
  split_ifs with hhint
  · exact ⟨rfl, rfl⟩
  · exact allocateLocked_listed b

theorem free_listed {alloc : Alloc} {c' : Class} (h : c.free cfg alloc = .ok c') (b : Slab) :
    c'.listed b = c.listed b ∧ c'.header = c.header := by
  unfold free at h
  split_ifs at h with hclass hmarked
  · rcases hbits : c.slabReleaseAllocMap alloc.1 with _ | bits
    · simp [hbits] at h
    · simp only [hbits] at h
      split_ifs at h
      exact Except.ok.inj h ▸ ⟨rfl, rfl⟩
  · exact Except.ok.inj h ▸ ⟨rfl, rfl⟩

/-- A new mark for one slab changes no ownership. -/
theorem owned_setMarkedForRelease {c' : Class} {slab : Slab} {mark : Bool}
    (h : c'.header = update c.header slab
      { c.header slab with markedForRelease := mark }) (b : Slab) :
    c'.owned cfg b = c.owned cfg b := by
  unfold owned
  rw [h]
  by_cases hb : b = slab
  · subst hb
    rw [update_self]
  · rw [update_of_ne hb]

theorem beginSlabRelease_listed (cfg : Config) (c : Class) (hint : Option Slab) (random : ℕ) :
    (∃ e c', c.beginSlabRelease cfg hint random = (c', .failed e) ∧
      ∀ b, c'.listed b = c.listed b ∧ c'.owned cfg b = c.owned cfg b) ∨
    (∃ slab c', c.beginSlabRelease cfg hint random = (c', .released slab) ∧
      ∀ b, c'.listed b + [slab].count b = c.listed b ∧
        (b ≠ slab → c'.owned cfg b = c.owned cfg b)) ∨
    (∃ slab c', c.beginSlabRelease cfg hint random = (c', .pruning slab) ∧
      ∀ b, c'.listed b + [slab].count b = c.listed b ∧ c'.owned cfg b = c.owned cfg b) := by
  unfold beginSlabRelease
  rcases hint.or (c.getSlabForRelease random) with _ | slab
  · exact Or.inl ⟨_, _, rfl, fun b => ⟨rfl, rfl⟩⟩
  dsimp only
  split_ifs with hheader hfree hmap hmem hcurr
  · exact Or.inl ⟨_, _, rfl, fun b => ⟨rfl, rfl⟩⟩
  · refine Or.inr (Or.inl ⟨_, _, rfl, fun b => ⟨?_, fun hb => ?_⟩⟩)
    · have hcount := swapRemove_count hfree b
      simp only [listed]
      omega
    · exact owned_congr (update_of_ne hb _ _)
  · exact Or.inl ⟨_, _, rfl, fun b => ⟨rfl, owned_setMarkedForRelease rfl b⟩⟩
  iterate 2
    · refine Or.inr (Or.inr ⟨_, _, rfl, fun b => ⟨?_, owned_setMarkedForRelease rfl b⟩⟩)
      have hcount := swapRemove_count hmem b
      simp only [listed]
      omega
  · exact Or.inl ⟨_, _, rfl, fun b => ⟨rfl, owned_setMarkedForRelease rfl b⟩⟩

theorem addSlabLocked_listed (slab : Slab) (b : Slab) :
    (c.addSlabLocked cfg slab).listed b = c.listed b + [slab].count b := by
  simp only [listed, addSlabLocked, count_append]
  omega

/-- No section of a `startSlabRelease` that prunes touches the vectors. -/
theorem prune_listed (slab : Slab) (shouldAbort : Bool) (position : Pruning) (b : Slab) :
    (c.prune cfg slab shouldAbort position).1.listed b = c.listed b := by
  cases position with
  | swap => rfl
  | batch => cases shouldAbort <;> rfl
  | collect => rfl
  | finish active => cases active <;> rfl
  | aborted => rfl

/-- Only an answer of its `shouldAbortFn` brings it to throw. -/
theorem prune_ne_aborted (slab : Slab) (position : Pruning) :
    (c.prune cfg slab false position).2 ≠ some .aborted := by
  cases position with
  | swap => exact nofun
  | batch freeAllocs =>
      change some (nextBatch slab freeAllocs) ≠ _
      unfold nextBatch
      split_ifs <;> exact nofun
  | collect => exact nofun
  | finish active => cases active <;> exact nofun
  | aborted => exact nofun

theorem abortSlabRelease_listed (slab : Slab) (b : Slab) :
    (c.abortSlabRelease cfg slab).listed b = c.listed b + [slab].count b := by
  simp only [listed, abortSlabRelease, count_append]
  omega

theorem forgetSlab_owned (slab : Slab) (b : Slab) :
    c.owned cfg b ≤ (c.forgetSlab slab).owned cfg b + [slab].count b := by
  by_cases hb : b = slab
  · subst hb
    rw [count_singleton_self]
    exact Nat.le_add_left_of_le (owned_le_one b)
  · have hsame : (c.forgetSlab slab).owned cfg b = c.owned cfg b :=
      owned_congr (update_of_ne hb _ _)
    omega

end Class

namespace System

variable {s : System}

theorem placed_init : ({} : System).Placed cfg := by
  intro b
  simp [slabPlaces, Class.listed, startingSlab]

/-- Whatever leaves the vectors, the call and the contexts as they are. -/
theorem Placed.congr (h : s.Placed cfg) {t : System}
    (hlisted : ∀ b, t.cls.listed b = s.cls.listed b)
    (howned : ∀ b, t.cls.owned cfg b = s.cls.owned cfg b)
    (hstart : t.startingSlab = s.startingSlab) (hcontexts : t.contexts = s.contexts) :
    t.Placed cfg := by
  intro b
  have hb := h b
  unfold slabPlaces at hb ⊢
  rw [hlisted, howned, hstart, hcontexts]
  exact hb

theorem Placed.addSlab (h : s.Placed cfg) {slab : Slab}
    (hnew : (s.cls.header slab).classId = none) :
    { s with cls := s.cls.addSlabLocked cfg slab }.Placed cfg := by
  intro b
  have hb := h b
  have hlisted : (s.cls.addSlabLocked cfg slab).listed b = s.cls.listed b + [slab].count b :=
    Class.addSlabLocked_listed slab b
  have howned : (s.cls.addSlabLocked cfg slab).owned cfg b = s.cls.owned cfg b + [slab].count b :=
    Class.addSlabLocked_owned hnew b
  change (s.cls.addSlabLocked cfg slab).listed b + s.startingSlab.toList.count b
    + s.contexts.count b ≤ (s.cls.addSlabLocked cfg slab).owned cfg b
  unfold slabPlaces at hb
  omega

theorem Placed.handOut (h : s.Placed cfg) {out : Option Alloc × Class}
    (hout : ∀ b, out.2.listed b = s.cls.listed b ∧ out.2.header = s.cls.header) :
    (s.handOut out).Placed cfg := by
  refine h.congr (fun b => (hout b).1) (fun b => ?_) rfl rfl
  exact Class.owned_congr (congrFun (hout b).2 b)

theorem Placed.startSlabRelease (h : s.Placed cfg) {hint : Option Slab} {random : ℕ} {t : System}
    (hstep : step cfg s (.startSlabRelease hint random) = some t) : t.Placed cfg := by
  have hnone : s.starting = none := by
    rcases hs : s.starting with _ | p
    · rfl
    · simp [step, hs] at hstep
  have hslabs : ∀ b, s.cls.listed b + s.contexts.count b ≤ s.cls.owned cfg b := by
    intro b
    have hb := h b
    simpa [slabPlaces, startingSlab, hnone] using hb
  simp only [step, hnone] at hstep
  have hbegin := Class.beginSlabRelease_listed cfg s.cls hint random
  rcases hbegin with ⟨e, c', heq, hc⟩ | ⟨slab, c', heq, hc⟩ | ⟨slab, c', heq, hc⟩
  all_goals
    rw [heq, some.injEq] at hstep
    subst hstep
    intro b
    have hb := hslabs b
    obtain ⟨hlisted, howned⟩ := hc b
  · change c'.listed b + 0 + s.contexts.count b ≤ c'.owned cfg b
    omega
  · have hone : s.cls.owned cfg b ≤ 1 := Class.owned_le_one b
    change c'.listed b + 0 + s.contexts.count b ≤ c'.owned cfg b
    by_cases hslab : b = slab
    · subst hslab
      rw [count_singleton_self] at hlisted
      omega
    · rw [howned hslab]
      omega
  · change c'.listed b + [slab].count b + s.contexts.count b ≤ c'.owned cfg b
    omega

theorem Placed.prune (h : s.Placed cfg) {shouldAbort : Bool} {t : System}
    (hstep : step cfg s (.prune shouldAbort) = some t) : t.Placed cfg := by
  rcases hs : s.starting with _ | ⟨slab, position⟩
  · simp [step, hs] at hstep
  have hstart := startingSlab_eq hs
  have hslabs : ∀ b, s.cls.listed b + [slab].count b + s.contexts.count b
      ≤ s.cls.owned cfg b := by
    intro b
    have hb := h b
    rwa [slabPlaces, hstart] at hb
  cases position with
  | swap | collect =>
      simp only [step, hs, Class.prune, some.injEq] at hstep
      exact hstep ▸ h.congr (fun _ => rfl) (fun _ => rfl) (by simp [startingSlab, hs]) rfl
  | batch freeAllocs inSlab notInSlab =>
      cases shouldAbort
      all_goals
        simp only [step, hs, Class.prune, Bool.false_eq_true, if_false, if_true,
          some.injEq] at hstep
        exact hstep ▸ h.congr (fun _ => rfl) (fun _ => rfl) (by simp [startingSlab, hs]) rfl
  | finish active =>
      rcases active with _ | ⟨a, active⟩
      · simp only [step, hs, Class.prune, isEmpty_nil, if_true, nil_append,
          some.injEq] at hstep
        subst hstep
        intro b
        have hb := hslabs b
        have hforget : s.cls.owned cfg b ≤ (s.cls.forgetSlab slab).owned cfg b + [slab].count b :=
          Class.forgetSlab_owned slab b
        change s.cls.listed b + 0 + s.contexts.count b ≤ (s.cls.forgetSlab slab).owned cfg b
        omega
      · simp only [step, hs, Class.prune, isEmpty_cons, Bool.false_eq_true, if_false,
          singleton_append, some.injEq] at hstep
        subst hstep
        intro b
        have hb := hslabs b
        have hcons : (slab :: s.contexts).count b = [slab].count b + s.contexts.count b := by
          rw [← count_append, singleton_append]
        change s.cls.listed b + 0 + (slab :: s.contexts).count b ≤ s.cls.owned cfg b
        omega
  | aborted =>
      -- the slab goes nowhere
      simp only [step, hs, Class.prune, nil_append, some.injEq] at hstep
      subst hstep
      intro b
      have hb := hslabs b
      rw [Class.owned_setMarkedForRelease (c := s.cls) rfl b]
      change s.cls.listed b + 0 + s.contexts.count b ≤ s.cls.owned cfg b
      omega

theorem Placed.abortSlabRelease (h : s.Placed cfg) {slab : Slab} (hmem : slab ∈ s.contexts) :
    { s with
      cls := s.cls.abortSlabRelease cfg slab
      contexts := s.contexts.erase slab }.Placed cfg := by
  intro b
  have hb := h b
  have hlisted : (s.cls.abortSlabRelease cfg slab).listed b = s.cls.listed b + [slab].count b :=
    Class.abortSlabRelease_listed slab b
  have hcontexts : s.contexts.count b = [slab].count b + (s.contexts.erase slab).count b := by
    rw [(perm_cons_erase hmem).count_eq b, ← count_append, singleton_append]
  have howned : s.cls.owned cfg b ≤ (s.cls.abortSlabRelease cfg slab).owned cfg b := by
    by_cases hslab : b = slab
    · subst hslab
      rw [Class.owned_of_owns (c := s.cls.abortSlabRelease cfg b)
        (by simp [Class.Owns, Class.abortSlabRelease])]
      exact Class.owned_le_one b
    · have hheader : (s.cls.abortSlabRelease cfg slab).header b = s.cls.header b :=
        update_of_ne hslab _ _
      exact Nat.le_of_eq (Class.owned_congr hheader).symm
  change (s.cls.abortSlabRelease cfg slab).listed b + s.startingSlab.toList.count b
    + (s.contexts.erase slab).count b ≤ _
  rw [slabPlaces] at hb
  refine Nat.le_trans ?_ howned
  omega

theorem Placed.completeSlabRelease (h : s.Placed cfg) {slab : Slab} (hmem : slab ∈ s.contexts)
    {cls : Class} (hcomplete : s.cls.completeSlabRelease cfg slab = some (.ok cls)) :
    { s with cls, contexts := s.contexts.erase slab }.Placed cfg := by
  obtain ⟨_, -, -, rfl⟩ := Class.completeSlabRelease_ok cfg hcomplete
  intro b
  have hb := h b
  have hforget : s.cls.owned cfg b ≤ (s.cls.forgetSlab slab).owned cfg b + [slab].count b :=
    Class.forgetSlab_owned slab b
  have hcontexts : s.contexts.count b = [slab].count b + (s.contexts.erase slab).count b := by
    rw [(perm_cons_erase hmem).count_eq b, ← count_append, singleton_append]
  change s.cls.listed b + s.startingSlab.toList.count b + (s.contexts.erase slab).count b
    ≤ (s.cls.forgetSlab slab).owned cfg b
  rw [slabPlaces] at hb
  omega

/-- **One step.** No locked section puts a slab in a second place, an abort included. -/
theorem Placed.step (h : s.Placed cfg) {l : Label} {t : System}
    (hstep : AllocationClass.step cfg s l = some t) : t.Placed cfg := by
  refine step_rule hstep h ?_ ?_ ?_ ?_ ?_ ?_ ?_ ?_ ?_
  · exact fun hnew => h.addSlab hnew
  · exact h.handOut Class.allocate_listed
  · exact h.handOut Class.allocateLocked_listed
  · exact fun hnew => (h.addSlab hnew).handOut Class.allocateLocked_listed
  · intro alloc cls _ hfree
    refine h.congr (fun b => (Class.free_listed hfree b).1) ?_ rfl rfl
    exact fun b => Class.owned_congr (congrFun (Class.free_listed hfree b).2 b)
  · rintro hint random rfl
    exact h.startSlabRelease hstep
  · rintro shouldAbort rfl
    exact h.prune hstep
  · exact fun hmem => h.abortSlabRelease hmem
  · exact fun hmem hcomplete => h.completeSlabRelease hmem hcomplete

theorem placed_of_run {ls : List Label} (hrun : exec (AllocationClass.step cfg) {} ls = some s) :
    s.Placed cfg :=
  exec_invariant (fun _ _ _ hs ht => hs.step ht) hrun placed_init

/-! ## What an abort undoes -/

/-- The chunk can be handed out: it is on the free list or in the uncarved tail. -/
def Allocatable (cfg : Config) (s : System) (a : Alloc) : Prop :=
  a ∈ s.cls.freedAllocations ∨ s.cls.inTail cfg a

/-- A `startSlabRelease` of `slab` that begins in `before` throws `SlabReleaseAborted` in
`after`. Others run in between; they cannot start a release. -/
def ThrowsAborted (cfg : Config) (before : System) (slab : Slab) (after : System) : Prop :=
  ∃ hint random started others thrown shouldAbort,
    AllocationClass.step cfg before (.startSlabRelease hint random) = some started ∧
    started.starting = some (slab, .swap) ∧
    exec (AllocationClass.step cfg) started others = some thrown ∧
    (∀ hint random, Label.startSlabRelease hint random ∉ others) ∧
    thrown.starting = some (slab, .aborted) ∧
    AllocationClass.step cfg thrown (.prune shouldAbort) = some after

/-- The call has left no trace: the slab is back in one of the vectors, it is not
marked, what was allocatable still is unless somebody has taken it, and what is held of
the slab goes to the free list when it is freed. -/
structure Undone (cfg : Config) (before : System) (slab : Slab) (after : System) : Prop where
  owned : slab ∈ after.cls.allocatedSlabs ∨ slab ∈ after.cls.freeSlabs
  unmarked : (after.cls.header slab).markedForRelease = false
  allocatable : ∀ a, before.Allocatable cfg a → after.Allocatable cfg a ∨ a ∈ after.held
  frees : ∀ a ∈ after.held, a.1 = slab →
    ∃ cls, after.cls.free cfg a = .ok cls ∧ a ∈ cls.freedAllocations

/-- The slab of a call that is about to throw is in neither vector. -/
theorem Placed.not_listed (h : s.Placed cfg) {slab : Slab} {position : Class.Pruning}
    (hs : s.starting = some (slab, position)) :
    slab ∉ s.cls.allocatedSlabs ∧ slab ∉ s.cls.freeSlabs := by
  have hslab := h slab
  have hone : s.cls.owned cfg slab ≤ 1 := Class.owned_le_one slab
  simp only [slabPlaces, startingSlab, hs, map_some, toList_some,
    count_singleton_self, Class.listed] at hslab
  have hallocated : s.cls.allocatedSlabs.count slab = 0 := by omega
  have hfree : s.cls.freeSlabs.count slab = 0 := by omega
  exact ⟨count_eq_zero.mp hallocated, count_eq_zero.mp hfree⟩

/-- **No abort is undone.** Whatever state the class was in, whichever slab the release
was about and after however many batches the abort came: the slab belongs to the class
by its header and is in neither of its vectors. -/
theorem aborted_release_not_undone {ls : List Label} {before after : System} {slab : Slab}
    (hrun : exec (AllocationClass.step cfg) {} ls = some before)
    (hthrows : ThrowsAborted cfg before slab after) : ¬ Undone cfg before slab after := by
  obtain ⟨hint, random, started, others, thrown, shouldAbort, hstart, -, hothers, -, haborted,
    hafter⟩ := hthrows
  have hplaced : before.Placed cfg := placed_of_run hrun
  have hthrown : thrown.Placed cfg :=
    exec_invariant (fun _ _ _ hs ht => hs.step ht) hothers (hplaced.step hstart)
  obtain ⟨hallocated, hfree⟩ := hthrown.not_listed haborted
  simp only [AllocationClass.step, haborted, Class.prune, nil_append,
    some.injEq] at hafter
  subst hafter
  intro hundone
  exact hundone.owned.elim hallocated hfree

/-- **What an abort loses.** After every run without one, a release that is told to abort at a batch,
and throws before anybody else runs, loses the chunks of its slab that the release map records, and
no others: nobody holds them, and they are on no list. -/
theorem aborted_release_loses_recorded {ls : List Label} {slab : Slab}
    {freeAllocs inSlab notInSlab : List Alloc} {shouldAbort : Bool} {after : System}
    (hrun : exec (AllocationClass.step cfg) {} ls = some s) (hnone : Label.prune true ∉ ls)
    (hs : s.starting = some (slab, .batch freeAllocs inSlab notInSlab))
    (habort : exec (AllocationClass.step cfg) s [.prune true, .prune shouldAbort] = some after)
    {a : Alloc} (hown : s.cls.Owns cfg a.1) (hidx : a.2 < cfg.allocsPerSlab) :
    (∀ st, ¬ after.InState cfg a st) ↔ a.1 = slab ∧ s.cls.recorded cfg a = true := by
  have h : s.Inv cfg := inv_of_run hrun hnone
  have honce : s.weight cfg a = 1 := by
    rw [h.once, if_pos hidx, Class.owned_of_owns hown]
  have hoff : s.offline = freeAllocs ++ (inSlab ++ notInSlab) := by simp [offline, hs]
  simp only [exec_cons, exec_nil, AllocationClass.step, hs, Class.prune, if_true, nil_append,
    bind_some, some.injEq] at habort
  -- The lists go back to the free list, and the release map is erased.
  have hrec : after.cls.recorded cfg a = (s.cls.recorded cfg a && !decide (a.1 = slab)) := by
    subst habort
    by_cases hslab : a.1 = slab
    · simp [Class.recorded, hslab]
    · simp [Class.recorded, hslab]
  have hweight : after.weight cfg a + (s.cls.recorded cfg a).toNat
      = s.weight cfg a + (after.cls.recorded cfg a).toNat := by
    have hfreed : after.cls.freedAllocations
        = (inSlab ++ (notInSlab ++ freeAllocs)) ++ s.cls.freedAllocations := by rw [← habort]
    have hafter : after.offline = [] := by rw [← habort]; rfl
    have hheld : after.held = s.held := by rw [← habort]
    have htail : after.cls.inTail cfg a = s.cls.inTail cfg a := by rw [← habort]; rfl
    have hfree : after.cls.freeSlabs = s.cls.freeSlabs := by rw [← habort]
    unfold weight Class.weight
    rw [hoff, hafter, hfreed, hheld, htail, hfree]
    simp only [count_append, count_nil]
    omega
  rw [← weight_eq_zero_iff]
  by_cases hslab : a.1 = slab
  · simp only [hslab, decide_true, Bool.not_true, Bool.and_false] at hrec
    rw [hrec, honce, Bool.toNat_false] at hweight
    cases hbit : s.cls.recorded cfg a
    · have hkept : after.weight cfg a = 1 := by simpa [hbit] using hweight
      simp [hkept]
    · have hlost : after.weight cfg a = 0 := by simpa [hbit] using hweight
      simp [hlost, hslab]
  · simp only [hslab, decide_false, Bool.not_false, Bool.and_true] at hrec
    have hkept : after.weight cfg a = 1 := by
      rw [hrec, honce] at hweight
      omega
    simp [hkept, hslab]

/-- A slab with one chunk handed out and the other one in the tail. -/
def oneTaken : List Label := [.addSlab 7, .allocate]

/-- The release of it, told to abort at the first opportunity. -/
def abortAtOnce : List Label := [.prune false, .prune true]

theorem aborted_release_not_undone_oneTaken :
    ∃ before after, exec (AllocationClass.step twoPerSlab) {} oneTaken = some before ∧
      ThrowsAborted twoPerSlab before 7 after ∧ ¬ Undone twoPerSlab before 7 after := by
  obtain ⟨before, after, hrun, hthrows⟩ :
      ∃ before after, exec (AllocationClass.step twoPerSlab) {} oneTaken = some before ∧
        ThrowsAborted twoPerSlab before 7 after :=
    ⟨_, _, rfl, some 7, 0, _, abortAtOnce, _, false, rfl, rfl, rfl, by simp [abortAtOnce], rfl, rfl⟩
  exact ⟨before, after, hrun, hthrows, aborted_release_not_undone hrun hthrows⟩

/-- The slab is in no vector afterwards, and the chunk in its tail is in no place. -/
theorem aborted_release_loses_tail :
    ∃ before after, exec (AllocationClass.step twoPerSlab) {} oneTaken = some before ∧
      ThrowsAborted twoPerSlab before 7 after ∧ ¬ Undone twoPerSlab before 7 after ∧
      before.Allocatable twoPerSlab (7, 1) ∧ ∀ st, ¬ after.InState twoPerSlab (7, 1) st := by
  obtain ⟨before, after, hrun, hthrows, htail, hallocated, hfree, hweight⟩ :
      ∃ before after, exec (AllocationClass.step twoPerSlab) {} oneTaken = some before ∧
        ThrowsAborted twoPerSlab before 7 after ∧ before.cls.inTail twoPerSlab (7, 1) = true ∧
        after.cls.allocatedSlabs = [] ∧ after.cls.freeSlabs = [] ∧
        after.weight twoPerSlab (7, 1) = 0 :=
    ⟨_, _, rfl, ⟨some 7, 0, _, abortAtOnce, _, false, rfl, rfl, rfl, by simp [abortAtOnce], rfl,
      rfl⟩, rfl, rfl, rfl, rfl⟩
  refine ⟨before, after, hrun, hthrows, ?_, Or.inr htail, weight_eq_zero_iff.mp hweight⟩
  intro hundone
  have howned := hundone.owned
  rw [hallocated, hfree] at howned
  exact absurd howned (by simp)

theorem aborted_release_loses_recorded_oneTaken :
    ∃ s after, exec (AllocationClass.step twoPerSlab) {}
        (oneTaken ++ [.startSlabRelease (some 7) 0, .prune false]) = some s ∧
      exec (AllocationClass.step twoPerSlab) s [.prune true, .prune false] = some after ∧
      ∀ st, ¬ after.InState twoPerSlab (7, 1) st := by
  obtain ⟨s, after, hrun, hs, hafter, hown, hrec⟩ : ∃ s after, exec (AllocationClass.step twoPerSlab) {}
        (oneTaken ++ [.startSlabRelease (some 7) 0, .prune false]) = some s ∧
      s.starting = some (7, .batch [] [] []) ∧
      exec (AllocationClass.step twoPerSlab) s [.prune true, .prune false] = some after ∧
      (s.cls.header 7).classId = some twoPerSlab.classId ∧
      s.cls.recorded twoPerSlab (7, 1) = true := ⟨_, _, rfl, rfl, rfl, rfl, rfl⟩
  have hlost := aborted_release_loses_recorded (a := (7, 1)) hrun (by decide) hs hafter hown (by decide)
  exact ⟨s, after, hrun, hafter, hlost.mpr ⟨rfl, hrec⟩⟩

end System

end CacheLib.AllocationClass
