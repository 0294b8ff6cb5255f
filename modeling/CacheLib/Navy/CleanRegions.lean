/-
The clean regions (`cachelib/navy/block_cache/RegionManager.cpp`), and the flag that has a
request retry without the mutex of their list. One step is the load of the flag or one
critical section of that mutex.
-/
import CacheLib.Lib.Run

set_option autoImplicit false

namespace CacheLib.Navy.CleanRegions

open Transition

structure Config where
  numCleanRegions : ℕ
  cleanRegionFastPath : Bool

structure State where
  cleanRegions : List ℕ := []
  reclaimsOutstanding : ℕ := 0
  cleanRegionsEmpty : Bool := false
  /-- the regions of requests that wait for `assignBufferToRegion` -/
  taken : List ℕ := []
  /-- the calls of `doReclaim` that have been scheduled and have not come to their end -/
  reclaims : ℕ := 0

inductive Label where
  | fastPath
  | getCleanRegion
  | assignBuffer (rid : ℕ) (ready : Bool)
  | releaseEvictedRegion (rid : ℕ)
  | releaseCleanedupRegion (rid : ℕ)

/-- `cleanRegions_.push_back(rid)`, after which the flag is cleared -/
def State.push (s : State) (rid : ℕ) : State :=
  { s with cleanRegions := s.cleanRegions ++ [rid], cleanRegionsEmpty := false }

/-- `getCleanRegion` with the mutex: the region it takes, and what it schedules -/
def State.getCleanRegion (s : State) (numCleanRegions : ℕ) : Option ℕ × State :=
  let rid := s.cleanRegions.getLast?
  let rest := s.cleanRegions.dropLast
  let newSched := numCleanRegions - (rest.length + s.reclaimsOutstanding)
  (rid,
    { cleanRegions := rest
      reclaimsOutstanding := s.reclaimsOutstanding + newSched
      cleanRegionsEmpty :=
        s.cleanRegionsEmpty || (rest.isEmpty && decide (0 < s.reclaimsOutstanding))
      taken := rid.toList ++ s.taken
      reclaims := s.reclaims + newSched })

def step (cfg : Config) (s : State) : Label → Option State
  | .fastPath => if cfg.cleanRegionFastPath && s.cleanRegionsEmpty then some s else none
  | .getCleanRegion => some (s.getCleanRegion cfg.numCleanRegions).2
  | .assignBuffer rid ready =>
      if rid ∈ s.taken then
        let s' := { s with taken := s.taken.erase rid }
        some (if ready then s' else s'.push rid)
      else none
  | .releaseEvictedRegion rid =>
      if 0 < s.reclaims then
        some ({ s with
          reclaimsOutstanding := s.reclaimsOutstanding - 1
          reclaims := s.reclaims - 1 }.push rid)
      else none
  | .releaseCleanedupRegion rid => some (s.push rid)

variable {cfg : Config} {s t : State}

structure Inv (s : State) : Prop where
  empty : s.cleanRegionsEmpty = true → s.cleanRegions = [] ∧ 0 < s.reclaimsOutstanding
  reclaims : s.reclaimsOutstanding ≤ s.reclaims

theorem Inv.getCleanRegion (h : Inv s) (n : ℕ) : Inv (s.getCleanRegion n).2 := by
  refine ⟨fun hflag => ?_, Nat.add_le_add_right h.reclaims _⟩
  simp only [State.getCleanRegion, Bool.or_eq_true, Bool.and_eq_true, List.isEmpty_iff,
    decide_eq_true_eq] at hflag ⊢
  rcases hflag with hflag | ⟨hrest, hpos⟩
  · obtain ⟨hlist, hpos⟩ := h.empty hflag
    exact ⟨by rw [hlist, List.dropLast_nil], Nat.add_pos_left hpos _⟩
  · exact ⟨hrest, Nat.add_pos_left hpos _⟩

theorem Inv.step (h : Inv s) {l : Label} (hstep : step cfg s l = some t) : Inv t := by
  cases l with
  | fastPath =>
      obtain ⟨-, hstep⟩ := Option.ite_none_right_eq_some.mp hstep
      exact Option.some.inj hstep ▸ h
  | getCleanRegion => exact Option.some.inj hstep ▸ h.getCleanRegion _
  | assignBuffer rid ready =>
      obtain ⟨-, hstep⟩ := Option.ite_none_right_eq_some.mp hstep
      cases ready <;> obtain rfl := Option.some.inj hstep
      · exact ⟨nofun, h.reclaims⟩
      · exact ⟨h.empty, h.reclaims⟩
  | releaseEvictedRegion rid =>
      obtain ⟨-, hstep⟩ := Option.ite_none_right_eq_some.mp hstep
      exact Option.some.inj hstep ▸ ⟨nofun, Nat.sub_le_sub_right h.reclaims 1⟩
  | releaseCleanedupRegion rid => exact Option.some.inj hstep ▸ ⟨nofun, h.reclaims⟩

/-- **Where the flag is set** there is no clean region, and a reclaim is on its way whose end clears
the flag. Where there is a clean region, no request passes it by. -/
theorem cleanRegionsEmpty_of_exec {ls : List Label} (hrun : exec (step cfg) {} ls = some s) :
    (s.cleanRegionsEmpty = true → s.cleanRegions = [] ∧ 0 < s.reclaimsOutstanding ∧
      ∀ rid, ∃ t, step cfg s (.releaseEvictedRegion rid) = some t ∧
        t.cleanRegionsEmpty = false ∧ rid ∈ t.cleanRegions) ∧
    (s.cleanRegions ≠ [] → step cfg s .fastPath = none ∧
      (s.getCleanRegion cfg.numCleanRegions).1.isSome) := by
  have hinv : Inv s := exec_invariant (fun _ _ _ h => h.step) hrun ⟨nofun, Nat.le_refl 0⟩
  refine ⟨fun hflag => ?_, fun hsome => ⟨if_neg ?_, ?_⟩⟩
  · obtain ⟨hempty, hpos⟩ := hinv.empty hflag
    refine ⟨hempty, hpos, fun rid => ⟨_, if_pos (Nat.lt_of_lt_of_le hpos hinv.reclaims), rfl, ?_⟩⟩
    exact List.mem_append_right _ (List.mem_singleton_self rid)
  · rw [Bool.and_eq_true]
    exact fun h => hsome (hinv.empty h.2).1
  · exact List.getLast?_isSome.mpr hsome

theorem cleanRegionsEmpty_of_exec_twoRequests :
    ∃ s, exec (step ⟨1, true⟩) {} [.getCleanRegion, .getCleanRegion] = some s ∧
      s.cleanRegionsEmpty = true ∧ s.cleanRegions = [] ∧ 0 < s.reclaimsOutstanding := by
  have hrun : exec (step ⟨1, true⟩) {} [.getCleanRegion, .getCleanRegion]
      = some ⟨[], 1, true, [], 1⟩ := rfl
  obtain ⟨hempty, hpos, -⟩ := (cleanRegionsEmpty_of_exec hrun).1 rfl
  exact ⟨_, hrun, rfl, hempty, hpos⟩

end CacheLib.Navy.CleanRegions
