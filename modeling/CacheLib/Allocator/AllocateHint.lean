/-
`canAllocate_` of an `AllocationClass`, the hint that `allocate` reads before it takes the lock.

The hint is cleared by an allocation that finds nothing, and whoever puts something back sets it
again. A release has the whole free list in its hands at first, so it has to set the hint on each
way out of its loop. The one where it is told to abort puts the free list back and does not.
-/
import CacheLib.Allocator.ChunkPartition

set_option autoImplicit false

namespace CacheLib.AllocationClass

open Transition

/-- A false hint is right. -/
def Class.HintTrue (cfg : Config) (c : Class) : Prop :=
  c.canAllocate = false →
    c.freeSlabs = [] ∧ c.canAllocateFromCurrentSlab cfg = false ∧ c.freedAllocations = []

/-! ## The functions of the class -/

namespace Class

variable {cfg : Config} {c : Class}

theorem HintTrue.of_hint (h : c.canAllocate = true) : c.HintTrue cfg := by
  intro hfalse
  rw [h] at hfalse
  exact absurd hfalse (by simp)

theorem HintTrue.allocateLocked (h : c.HintTrue cfg) : (c.allocateLocked cfg).2.HintTrue cfg := by
  rw [Class.allocateLocked]
  split
  · rename_i hnothing
    intro _
    simp only [Bool.and_eq_true, List.isEmpty_iff, Bool.not_eq_true'] at hnothing
    exact ⟨hnothing.1.2, hnothing.2, hnothing.1.1⟩
  rename_i hnothing
  -- something was there, so the hint is true, and it stays so
  have hhint : c.canAllocate = true := by
    by_contra hfalse
    obtain ⟨hfree, hcurr, hfreed⟩ := h (by simpa using hfalse)
    exact hnothing (by simp [hfree, hcurr, hfreed])
  apply of_hint
  split
  · exact hhint
  split
  · exact hhint
  · unfold setupCurrentSlab
    split <;> exact hhint

theorem HintTrue.allocate (h : c.HintTrue cfg) : (c.allocate cfg).2.HintTrue cfg := by
  unfold Class.allocate
  split_ifs
  · exact h
  · exact h.allocateLocked

theorem HintTrue.free (h : c.HintTrue cfg) {alloc : Alloc} {c' : Class}
    (hfree : c.free cfg alloc = .ok c') : c'.HintTrue cfg := by
  unfold Class.free at hfree
  split_ifs at hfree
  · split at hfree
    · exact absurd hfree (by simp)
    split_ifs at hfree
    exact Except.ok.inj hfree ▸ h
  · exact Except.ok.inj hfree ▸ of_hint rfl

/-- A release takes free slabs and the current slab away from the class. -/
theorem HintTrue.beginSlabRelease (h : c.HintTrue cfg) (hint : Option Slab) (random : ℕ) :
    (c.beginSlabRelease cfg hint random).1.HintTrue cfg := by
  unfold Class.beginSlabRelease
  split
  · exact h
  dsimp only
  split_ifs with _ hslab
  · exact h
  · intro hhint
    rw [(h hhint).1] at hslab
    exact absurd hslab List.not_mem_nil
  · exact h
  · exact fun hhint => ⟨(h hhint).1, rfl, (h hhint).2.2⟩
  · exact h
  · exact h

theorem HintTrue.abortSlabRelease (h : c.HintTrue cfg) (slab : Slab) :
    (c.abortSlabRelease cfg slab).HintTrue cfg := by
  unfold Class.abortSlabRelease
  dsimp only
  rcases c.slabReleaseAllocMap slab with _ | allocState
  · exact h
  dsimp only
  by_cases hfreed : (List.range cfg.allocsPerSlab).filter allocState = []
  · simp only [hfreed]
    exact h
  · exact of_hint (if_neg fun hempty => hfreed (List.isEmpty_iff.mp hempty))

/-- The chunks that an abort puts back -/
def Pruning.putBack : Pruning → List Alloc
  | .batch freeAllocs inSlab notInSlab => inSlab ++ (notInSlab ++ freeAllocs)
  | _ => []

theorem HintTrue.prune (h : c.HintTrue cfg) {slab : Slab} {shouldAbort : Bool}
    {position : Pruning}
    (habort : shouldAbort = true → c.canAllocate = false → position.putBack = []) :
    (c.prune cfg slab shouldAbort position).1.HintTrue cfg := by
  cases position with
  | swap => exact fun hhint => ⟨(h hhint).1, (h hhint).2.1, rfl⟩
  | batch freeAllocs inSlab notInSlab =>
      cases shouldAbort with
      | true =>
          intro hhint
          obtain ⟨hfree, hcurr, hfreed⟩ := h hhint
          refine ⟨hfree, hcurr, ?_⟩
          exact List.append_eq_nil_iff.mpr ⟨habort rfl hhint, hfreed⟩
      | false =>
          rcases notInSlab with _ | ⟨alloc, notInSlab⟩
          · exact h
          · exact of_hint rfl
  | collect => exact h
  | finish activeAllocations =>
      rcases activeAllocations with _ | ⟨alloc, activeAllocations⟩
      · exact h
      · exact h
  | aborted => exact h

end Class

/-! ## Runs -/

/-- A release that is told to abort puts chunks back on the free list while the hint is false. -/
def System.PutsBackUnnoticed (s : System) (l : Label) : Prop :=
  l = .prune true ∧ s.cls.canAllocate = false ∧
    ∃ slab position, s.starting = some (slab, position) ∧ position.putBack ≠ []

/-- **One step.** -/
theorem Class.HintTrue.step {cfg : Config} {s t : System} {l : Label} (h : s.cls.HintTrue cfg)
    (hl : ¬ s.PutsBackUnnoticed l) (hstep : AllocationClass.step cfg s l = some t) :
    t.cls.HintTrue cfg := by
  refine step_rule hstep (P := fun t => t.cls.HintTrue cfg) h ?_ ?_ ?_ ?_ ?_ ?_ ?_ ?_ ?_
  · exact fun _ => of_hint rfl
  · exact h.allocate
  · exact h.allocateLocked
  · exact fun _ => HintTrue.allocateLocked (of_hint rfl)
  · exact fun _ hfree => h.free hfree
  · rintro hint random rfl
    have hbegin := h.beginSlabRelease hint random
    simp only [AllocationClass.step] at hstep
    split at hstep
    · exact absurd hstep (by simp)
    split at hstep
    all_goals
      rename_i heq
      rw [heq] at hbegin
      exact Option.some.inj hstep ▸ hbegin
  · rintro shouldAbort rfl
    simp only [AllocationClass.step] at hstep
    split at hstep
    · exact absurd hstep (by simp)
    rename_i slab position hs
    have hprune : (s.cls.prune cfg slab shouldAbort position).1.HintTrue cfg := by
      apply h.prune
      rintro rfl hhint
      by_contra hback
      exact hl ⟨rfl, hhint, slab, position, hs, hback⟩
    split at hstep
    all_goals
      rename_i heq
      rw [heq] at hprune
      exact Option.some.inj hstep ▸ hprune
  · exact fun _ => h.abortSlabRelease _
  · intro slab cls _ hcomplete
    obtain ⟨_, -, -, rfl⟩ := Class.completeSlabRelease_ok cfg hcomplete
    exact h

/-- **In every run** in which no aborted release puts chunks back while the hint is false, a false
hint is right in the end, whether or not a release is on its way then. -/
theorem hintTrue_of_run {cfg : Config} {ls : List Label} {s : System}
    (hrun : exec (step cfg) {} ls = some s)
    (hput : Along (step cfg) (fun s l => ¬ s.PutsBackUnnoticed l) {} ls) : s.cls.HintTrue cfg := by
  have hkeep : ∀ s l t, s.cls.HintTrue cfg → ¬ s.PutsBackUnnoticed l → step cfg s l = some t →
      t.cls.HintTrue cfg := fun _ _ _ h hl => h.step hl
  exact exec_invariant_along hkeep hrun hput (Class.HintTrue.of_hint rfl)

/-- A release of a slab with a free chunk and one in use, and an allocation that finds nothing
while the release has the free list. -/
def foundNothing : List Label :=
  [.addSlab 7, .allocate, .allocate, .free (7, 0), .startSlabRelease (some 7) 0, .prune false,
    .allocate]

theorem hintTrue_of_run_foundNothing :
    ∃ s, exec (step twoPerSlab) {} (foundNothing ++ [.prune false]) = some s ∧
      s.cls.canAllocate = false ∧ s.cls.HintTrue twoPerSlab := by
  obtain ⟨s, hrun, hhint⟩ : ∃ s,
      exec (step twoPerSlab) {} (foundNothing ++ [.prune false]) = some s ∧
        s.cls.canAllocate = false := ⟨_, rfl, rfl⟩
  refine ⟨s, hrun, hhint, hintTrue_of_run hrun (Along.of_forall ?_)⟩
  rintro l hl s ⟨rfl, -⟩
  exact absurd hl (by decide)

/-- If that release is told to abort, the chunk is back on the free list, the hint stays false, and
the next allocation does not find the chunk. -/
theorem aborted_release_leaves_hint :
    ∃ s, exec (step twoPerSlab) {} (foundNothing ++ [.prune true, .prune true]) = some s ∧
      s.starting = none ∧ s.cls.canAllocate = false ∧ s.cls.freedAllocations = [(7, 0)] ∧
      ¬ s.cls.HintTrue twoPerSlab ∧ (s.cls.allocate twoPerSlab).1 = none :=
  ⟨_, rfl, rfl, rfl, rfl, fun h => absurd (h rfl).2.2 (by decide), rfl⟩

end CacheLib.AllocationClass
