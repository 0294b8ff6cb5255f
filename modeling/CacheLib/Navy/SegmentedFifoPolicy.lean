/-
The segmented FIFO policy of the block cache (`cachelib/navy/block_cache/FifoPolicy.cpp`).

Regions are tracked in segments, one for each priority, and a segment may hold a share of all
of them that its ratio says. Whatever is too much goes to the segment below, the oldest first,
so that only the lowest segment may hold more than its share. That is also why there is something
to evict as long as anything is tracked: the others, within their shares, do not add up to all
there is.

The shares are fractions of the sum of the ratios, which is computed in 32 bits and not checked.
Where it wraps around, the policy always goes wrong, whatever the ratios are. The product of a
number of regions with a ratio is one of 64 bits; that it may wrap around does no harm.
-/
import CacheLib.Lib.Run
import Mathlib.Algebra.Order.BigOperators.Group.List
import Mathlib.Algebra.Order.Ring.Nat

set_option autoImplicit false

namespace CacheLib.Navy

namespace SegmentedFifoPolicy

/-- `detail::Node` -/
structure Node where
  rid : UInt32
  /-- when the region was first tracked -/
  trackTime : ℕ
  deriving DecidableEq

end SegmentedFifoPolicy

open SegmentedFifoPolicy in
structure SegmentedFifoPolicy where
  segmentRatio : List UInt32
  totalRatioWeight : UInt32
  /-- the segment of the lowest priority first -/
  segments : List (List Node)

namespace SegmentedFifoPolicy

open Transition List

/-! ## The policy -/

/-- `detail::accumulate` -/
def accumulate (nums : List UInt32) : Except String UInt32 :=
  nums.foldlM (fun a b =>
    if b = 0 then throw s!"Expected non-zero element. Actual: {b}" else pure (a + b)) 0

/-- The constructor -/
def make (segmentRatio : List UInt32) : Except String SegmentedFifoPolicy := do
  let totalRatioWeight ← accumulate segmentRatio
  let segments := replicate segmentRatio.length []
  if segments.isEmpty then throw "Cannot initialize SFIFO without any segments"
  else pure { segmentRatio, totalRatioWeight, segments }

variable {p p' : SegmentedFifoPolicy} {n : ℕ} {curr next : List Node} {total : UInt32}
  {segments segments' : List (List Node)} {ratios : List UInt32}

def numElementsLocked (p : SegmentedFifoPolicy) : ℕ := (p.segments.map length).sum

/-- `currSegmentLimit`, which is a `size_t` -/
def segmentLimit (regionsTracked : ℕ) (ratio total : UInt32) : ℕ :=
  regionsTracked * ratio.toNat % 2 ^ 64 / total.toNat

/-- The inner loop of `rebalanceLocked`: the oldest nodes go to the next segment. -/
def demote (limit : ℕ) : List Node → List Node → List Node × List Node
  | [], next => ([], next)
  | x :: xs, next =>
      if limit < (x :: xs).length then demote limit xs (next ++ [x]) else (x :: xs, next)

/-- The outer loop, over the segments from the highest priority on. There is no result where it
divides by zero. -/
def rebalanceFrom (regionsTracked : ℕ) (total : UInt32) :
    List (List Node) → List UInt32 → Option (List (List Node))
  | curr :: next :: rest, ratio :: ratios =>
      if total = 0 then none
      else
        let moved := demote (segmentLimit regionsTracked ratio total) curr next
        (rebalanceFrom regionsTracked total (moved.2 :: rest) ratios).map (moved.1 :: ·)
  | segments, _ => some segments

def rebalanceLocked (p : SegmentedFifoPolicy) : Option SegmentedFifoPolicy :=
  (rebalanceFrom p.numElementsLocked p.totalRatioWeight p.segments.reverse p.segmentRatio.reverse).map
    fun segments => { p with segments := segments.reverse }

def track (p : SegmentedFifoPolicy) (rid : UInt32) (priority : UInt16) (now : ℕ) :
    Option SegmentedFifoPolicy :=
  -- `segments_[priority]` is not checked
  if priority.toNat < p.segments.length then
    rebalanceLocked { p with segments := p.segments.modify priority.toNat (· ++ [⟨rid, now⟩]) }
  else none

def touch (p : SegmentedFifoPolicy) (_rid : UInt32) : SegmentedFifoPolicy := p

/-- `evict`; the invalid region id is none. -/
def evict (p : SegmentedFifoPolicy) : Option (SegmentedFifoPolicy × Option UInt32) :=
  match p.segments with
  | [] => none
  | [] :: _ => some (p, none)
  | (x :: lowestPri) :: rest =>
      (rebalanceLocked { p with segments := lowestPri :: rest }).map (·, some x.rid)

/-! ## Rebalancing -/

theorem demote_eq (limit : ℕ) (curr next : List Node) : demote limit curr next =
    (curr.drop (curr.length - limit), next ++ curr.take (curr.length - limit)) := by
  induction curr generalizing next with
  | nil => simp [demote]
  | cons x xs ih =>
      rw [demote]
      split_ifs with hlimit
      · obtain ⟨k, hk⟩ : ∃ k, (x :: xs).length - limit = k + 1 :=
          ⟨(x :: xs).length - limit - 1, by omega⟩
        have hk' : xs.length - limit = k := by
          rw [length_cons] at hk
          omega
        rw [ih, hk, hk', drop_succ_cons, take_succ_cons, append_assoc]
        rfl
      · rw [Nat.sub_eq_zero_of_le (not_lt.mp hlimit)]
        simp

/-- What rebalancing does to the segments, the highest priority first -/
structure Rebalanced (n : ℕ) (total : UInt32) (ratios : List UInt32)
    (segments segments' : List (List Node)) : Prop where
  length_eq : segments'.length = segments.length
  perm : segments'.flatten.Perm segments.flatten
  /-- all but the last are within their limits -/
  within : ∀ x ∈ (segments'.zip ratios).dropLast, x.1.length ≤ segmentLimit n x.2 total
  /-- the last one gets longer at its end only -/
  last : ∀ low ∈ segments.getLast?, ∃ low' ∈ segments'.getLast?, low <+: low'

/-- **The cascade.** -/
theorem rebalanceFrom_spec (htotal : total ≠ 0) (hlength : segments.length = ratios.length) :
    ∃ segments', rebalanceFrom n total segments ratios = some segments' ∧
      Rebalanced n total ratios segments segments' := by
  induction ratios generalizing segments with
  | nil =>
      obtain rfl := length_eq_zero_iff.mp hlength
      exact ⟨[], by rfl, rfl, .refl _, by simp, by simp⟩
  | cons ratio ratios ih =>
      match segments, hlength with
      | [curr], hlength =>
          have hratios : ratios = [] := by simpa using hlength
          subst hratios
          exact ⟨[curr], by rfl, rfl, .refl _, by simp, by simp⟩
      | curr :: next :: rest, hlength =>
          rw [rebalanceFrom, if_neg htotal, demote_eq]
          generalize hk : curr.length - segmentLimit n ratio total = k
          -- what is too much is now a part of the next segment
          have hlength' : ((next ++ curr.take k) :: rest).length = ratios.length := by
            simpa using hlength
          obtain ⟨segments', hsome, hspec⟩ := ih hlength'
          dsimp only
          rw [hsome]
          have hne : segments' ≠ [] := by
            have hsame := hspec.length_eq
            rintro rfl
            simp at hsame
          refine ⟨curr.drop k :: segments', rfl, ?_, ?_, ?_, ?_⟩
          · simp [hspec.length_eq]
          · have hperm := hspec.perm
            rw [perm_iff_count] at hperm ⊢
            intro node
            have hnode := hperm node
            have hcut := congrArg (count node) (take_append_drop k curr)
            simp only [flatten_cons, count_append] at hnode hcut ⊢
            omega
          · have hzip : segments'.zip ratios ≠ [] := by
              rw [ne_eq, zip_eq_nil_iff, not_or]
              refine ⟨hne, ?_⟩
              rintro rfl
              simp at hlength
            rw [zip_cons_cons, dropLast_cons_of_ne_nil hzip]
            rintro x (_ | ⟨_, hx⟩)
            · simp only [length_drop]
              omega
            · exact hspec.within x hx
          · intro low hlow
            rw [getLast?_cons_cons] at hlow
            rw [getLast?_cons_of_ne_nil hne]
            cases rest with
            | nil =>
                obtain rfl : next = low := by simpa using hlow
                obtain ⟨low', hlow', hpre⟩ := hspec.last (next ++ curr.take k) (by simp)
                exact ⟨low', hlow', (prefix_append _ _).trans hpre⟩
            | cons segment rest =>
                exact hspec.last low (by simpa [getLast?_cons_cons] using hlow)

theorem numElementsLocked_eq (p : SegmentedFifoPolicy) :
    p.numElementsLocked = p.segments.flatten.length := by
  rw [length_flatten]
  rfl

/-- `segments_.front()` -/
def lowest (p : SegmentedFifoPolicy) : List Node := p.segments.headD []

/-- The policy has the ratios it was made with. -/
structure MadeWith (ratios : List UInt32) (p : SegmentedFifoPolicy) : Prop where
  ratio_eq : p.segmentRatio = ratios
  total_eq : p.totalRatioWeight.toNat = (ratios.map UInt32.toNat).sum % 2 ^ 32
  length_eq : p.segments.length = ratios.length

/-- All segments but the lowest are within the limits for `n` regions. -/
def Within (n : ℕ) (p : SegmentedFifoPolicy) : Prop :=
  ∀ x ∈ (p.segments.zip p.segmentRatio).tail, x.1.length ≤ segmentLimit n x.2 p.totalRatioWeight

theorem Within.of_perm (h : Within p.numElementsLocked p')
    (hperm : p'.segments.flatten.Perm p.segments.flatten) : Within p'.numElementsLocked p' := by
  rwa [numElementsLocked_eq, hperm.length_eq, ← numElementsLocked_eq]

theorem rebalanceLocked_spec (h : MadeWith ratios p) (htotal : p.totalRatioWeight ≠ 0) :
    ∃ p', rebalanceLocked p = some p' ∧ MadeWith ratios p' ∧
      p'.segments.flatten.Perm p.segments.flatten ∧ Within p'.numElementsLocked p' ∧
        p.lowest <+: p'.lowest := by
  have hlength : p.segments.reverse.length = p.segmentRatio.reverse.length := by
    rw [length_reverse, length_reverse, h.length_eq, h.ratio_eq]
  obtain ⟨segments', hsome, hspec⟩ := rebalanceFrom_spec (n := p.numElementsLocked) htotal hlength
  have hlength' : segments'.length = p.segments.length := by
    rw [hspec.length_eq, length_reverse]
  have hperm : segments'.reverse.flatten.Perm p.segments.flatten :=
    (reverse_perm segments').flatten.trans
      (hspec.perm.trans (reverse_perm p.segments).flatten)
  have hwithin : Within p.numElementsLocked { p with segments := segments'.reverse } := by
    intro x hx
    have hzip : (segments'.reverse.zip p.segmentRatio) =
        (segments'.zip p.segmentRatio.reverse).reverse := by
      have hsame : segments'.length = p.segmentRatio.reverse.length := by
        rw [hlength', h.length_eq, length_reverse, h.ratio_eq]
      show zipWith _ _ _ = (zipWith _ _ _).reverse
      rw [reverse_zipWith hsame, reverse_reverse]
    rw [hzip, tail_reverse, mem_reverse] at hx
    exact hspec.within x hx
  refine ⟨{ p with segments := segments'.reverse }, ?_, ⟨h.ratio_eq, h.total_eq, ?_⟩, hperm,
    hwithin.of_perm hperm, ?_⟩
  · rw [rebalanceLocked, hsome]
    rfl
  · rw [length_reverse, hlength', h.length_eq]
  · rw [lowest, lowest, headD_eq_head?_getD, headD_eq_head?_getD, head?_reverse]
    cases hlow : p.segments.head? with
    | none => exact nil_prefix
    | some low =>
        rw [← getLast?_reverse] at hlow
        obtain ⟨low', hlow', hpre⟩ := hspec.last low hlow
        rw [Option.mem_def.mp hlow']
        exact hpre

/-! ## The constructor -/

theorem accumulate_eq_ok (h : accumulate ratios = .ok total) :
    (∀ ratio ∈ ratios, ratio ≠ 0) ∧ total.toNat = (ratios.map UInt32.toNat).sum % 2 ^ 32 := by
  -- the sum is taken from the left, so from any start
  suffices hfrom : ∀ (ratios : List UInt32) (start : UInt32),
      ratios.foldlM (fun a b => if b = 0 then throw s!"Expected non-zero element. Actual: {b}"
        else pure (a + b)) start = (Except.ok total : Except String UInt32) →
      (∀ ratio ∈ ratios, ratio ≠ 0) ∧
        total.toNat = (start.toNat + (ratios.map UInt32.toNat).sum) % 2 ^ 32 by
    obtain ⟨hne, hsum⟩ := hfrom ratios 0 h
    refine ⟨hne, hsum.trans ?_⟩
    rw [UInt32.toNat_zero, Nat.zero_add]
  intro ratios
  induction ratios with
  | nil =>
      intro start h
      obtain rfl : start = total := by simpa [pure, Except.pure] using h
      refine ⟨by simp, ?_⟩
      simp [Nat.mod_eq_of_lt start.toNat_lt]
  | cons ratio ratios ih =>
      intro start h
      rw [foldlM_cons] at h
      split_ifs at h with hzero
      · exact absurd h (by simp [throw, throwThe, MonadExceptOf.throw, bind, Except.bind])
      · obtain ⟨hne, hsum⟩ := ih (start + ratio) h
        refine ⟨forall_mem_cons.mpr ⟨hzero, hne⟩, hsum.trans ?_⟩
        rw [UInt32.toNat_add, map_cons, sum_cons, Nat.mod_add_mod, Nat.add_assoc]

theorem make_spec (h : make ratios = .ok p) :
    MadeWith ratios p ∧ (∀ ratio ∈ ratios, ratio ≠ 0) ∧ ratios ≠ [] ∧
      p.segments = replicate ratios.length [] := by
  unfold make at h
  cases htotal : accumulate ratios with
  | error e => exact absurd h (by simp [htotal, bind, Except.bind])
  | ok total =>
      obtain ⟨hne, hsum⟩ := accumulate_eq_ok htotal
      simp only [htotal, bind, Except.bind] at h
      split_ifs at h with hempty
      obtain rfl := Except.ok.inj h
      refine ⟨⟨rfl, hsum, by simp⟩, hne, ?_, rfl⟩
      rintro rfl
      simp at hempty

theorem MadeWith.total_ne_zero (h : MadeWith ratios p)
    (hsum : (ratios.map UInt32.toNat).sum % 2 ^ 32 ≠ 0) : p.totalRatioWeight ≠ 0 := by
  intro hzero
  rw [← h.total_eq, hzero] at hsum
  exact hsum rfl

/-! ## The calls -/

theorem flatten_modify_perm {k : ℕ} (hk : k < segments.length) (node : Node) :
    (segments.modify k (· ++ [node])).flatten.Perm (segments.flatten ++ [node]) := by
  induction segments generalizing k with
  | nil => simp at hk
  | cons segment segments ih =>
      cases k with
      | zero =>
          rw [modify_zero_cons, flatten_cons, flatten_cons, append_assoc,
            append_assoc]
          exact perm_append_comm.append_left segment
      | succ k =>
          rw [modify_succ_cons, flatten_cons, flatten_cons, append_assoc]
          exact (ih (Nat.lt_of_succ_lt_succ hk)).append_left segment

theorem headD_prefix_modify (segments : List (List Node)) (k : ℕ) (node : Node) :
    segments.headD [] <+: (segments.modify k (· ++ [node])).headD [] := by
  cases segments with
  | nil => simp
  | cons segment segments => cases k <;> simp

theorem track_spec (h : MadeWith ratios p) (htotal : p.totalRatioWeight ≠ 0) {priority : UInt16}
    (hpriority : priority.toNat < ratios.length) (rid : UInt32) (now : ℕ) :
    ∃ p', p.track rid priority now = some p' ∧ MadeWith ratios p' ∧
      (p'.segments.flatten.map Node.rid).Perm (p.segments.flatten.map Node.rid ++ [rid]) ∧
        Within p'.numElementsLocked p' ∧ p.lowest <+: p'.lowest := by
  have hk : priority.toNat < p.segments.length := by rwa [h.length_eq]
  have hmade : MadeWith ratios
      { p with segments := p.segments.modify priority.toNat (· ++ [⟨rid, now⟩]) } :=
    ⟨h.ratio_eq, h.total_eq, (length_modify _ _ _).trans h.length_eq⟩
  obtain ⟨p', hsome, hmade', hperm, hwithin, hlow⟩ := rebalanceLocked_spec hmade htotal
  refine ⟨p', ?_, hmade', ?_, hwithin, (headD_prefix_modify _ _ _).trans hlow⟩
  · rw [track, if_pos hk, hsome]
  · have hheld := (hperm.trans (flatten_modify_perm hk ⟨rid, now⟩)).map Node.rid
    rwa [map_append] at hheld

theorem evict_spec (h : MadeWith ratios p) (hratios : ratios ≠ []) (htotal : p.totalRatioWeight ≠ 0)
    (hwithin : Within p.numElementsLocked p) :
    ∃ p', p.evict = some (p', p.lowest.head?.map Node.rid) ∧ MadeWith ratios p' ∧
      ((p.lowest.head?.map Node.rid).toList ++ p'.segments.flatten.map Node.rid).Perm
        (p.segments.flatten.map Node.rid) ∧
          Within p'.numElementsLocked p' ∧ p.lowest.tail <+: p'.lowest := by
  unfold evict lowest
  cases hsegments : p.segments with
  | nil =>
      have hlength := h.length_eq
      rw [hsegments] at hlength
      exact absurd (length_eq_zero_iff.mp hlength.symm) hratios
  | cons low rest =>
      cases low with
      | nil => exact ⟨p, rfl, h, by simp [hsegments], hwithin, by simp⟩
      | cons x low =>
          have hmade : MadeWith ratios { p with segments := low :: rest } := by
            refine ⟨h.ratio_eq, h.total_eq, ?_⟩
            rw [← h.length_eq, hsegments]
            rfl
          obtain ⟨p', hsome, hmade', hperm, hwithin', hlow⟩ := rebalanceLocked_spec hmade htotal
          refine ⟨p', ?_, hmade', (hperm.map Node.rid).cons x.rid, hwithin', hlow⟩
          simp only [hsome]
          rfl

/-! ## What is tracked and what is evicted -/

/-- The policy, with the regions that were tracked and those that were evicted, in order -/
structure Log where
  policy : SegmentedFifoPolicy
  tracked : List UInt32 := []
  evicted : List UInt32 := []

inductive Op where
  | track (rid : UInt32) (priority : UInt16) (now : ℕ)
  | touch (rid : UInt32)
  | evict

/-- `XDCHECK_LT(priority, segments_.size())` -/
def Op.InRange (ratios : List UInt32) : Op → Prop
  | .track _ priority _ => priority.toNat < ratios.length
  | _ => True

def step (s : Log) : Op → Option Log
  | .track rid priority now =>
      (s.policy.track rid priority now).map fun policy =>
        { s with policy, tracked := s.tracked ++ [rid] }
  | .touch rid => some { s with policy := s.policy.touch rid }
  | .evict =>
      s.policy.evict.map fun (policy, rid) => { s with policy, evicted := s.evicted ++ rid.toList }

/-- The regions in the order in which they came to the lowest segment -/
def Log.arrived (s : Log) : List UInt32 := s.evicted ++ s.policy.lowest.map Node.rid

/-- **What the policy is for.** -/
structure Serves (ratios : List UInt32) (s : Log) : Prop where
  /-- the tracked regions are held or have been evicted -/
  held : (s.policy.segments.flatten.map Node.rid ++ s.evicted).Perm s.tracked
  /-- the next eviction is from the front of the lowest segment -/
  evicts : ∃ policy, s.policy.evict = some (policy, s.policy.lowest.head?.map Node.rid)
  /-- which is empty only if there is nothing else -/
  empty : s.policy.lowest = [] → s.policy.segments.flatten = []
  /-- the other segments are within their shares -/
  shares : ∀ x ∈ (s.policy.segments.zip ratios).tail, x.1.length ≤
    s.policy.segments.flatten.length * x.2.toNat / (ratios.map UInt32.toNat).sum

/-- The invariant behind it -/
structure Inv (ratios : List UInt32) (s : Log) : Prop where
  made : MadeWith ratios s.policy
  held : (s.policy.segments.flatten.map Node.rid ++ s.evicted).Perm s.tracked
  within : Within s.policy.numElementsLocked s.policy

variable {s s' : Log} {op : Op}

/-- **A step** keeps the invariant, and the order of the lowest segment. -/
theorem Inv.step (h : Inv ratios s) (hratios : ratios ≠ [])
    (hsum : (ratios.map UInt32.toNat).sum % 2 ^ 32 ≠ 0) (hop : op.InRange ratios) :
    ∃ s', step s op = some s' ∧ Inv ratios s' ∧ s.arrived <+: s'.arrived := by
  have htotal := h.made.total_ne_zero hsum
  cases op with
  | touch rid => exact ⟨s, rfl, h, prefix_rfl⟩
  | track rid priority now =>
      obtain ⟨policy, hsome, hmade, hperm, hwithin, hlow⟩ := track_spec h.made htotal hop rid now
      refine ⟨{ s with policy, tracked := s.tracked ++ [rid] }, ?_, ⟨hmade, ?_, hwithin⟩, ?_⟩
      · rw [SegmentedFifoPolicy.step, hsome]
        rfl
      · refine (hperm.append_right s.evicted).trans ?_
        rw [append_assoc]
        refine (perm_append_comm.append_left _).trans ?_
        rw [← append_assoc]
        exact h.held.append_right [rid]
      · exact (prefix_append_right_inj _).mpr (hlow.map Node.rid)
  | evict =>
      obtain ⟨policy, hsome, hmade, hperm, hwithin, hlow⟩ :=
        evict_spec h.made hratios htotal h.within
      refine ⟨_, by rw [SegmentedFifoPolicy.step, hsome]; rfl, ⟨hmade, ?_, hwithin⟩, ?_⟩
      · refine perm_append_comm.trans ?_
        rw [append_assoc]
        exact (hperm.append_left s.evicted).trans (perm_append_comm.trans h.held)
      · show s.evicted ++ s.policy.lowest.map Node.rid <+: s.evicted ++ _ ++ _
        rw [append_assoc]
        refine (prefix_append_right_inj _).mpr ?_
        cases hlowest : s.policy.lowest with
        | nil => exact nil_prefix
        | cons x low =>
            rw [hlowest] at hlow
            exact cons_prefix_cons.mpr ⟨rfl, hlow.map Node.rid⟩

/-- So does a run. -/
theorem Inv.exec (h : Inv ratios s) (hratios : ratios ≠ [])
    (hsum : (ratios.map UInt32.toNat).sum % 2 ^ 32 ≠ 0) {run : List Op}
    (hrun : ∀ op ∈ run, op.InRange ratios) :
    ∃ s', Transition.exec SegmentedFifoPolicy.step s run = some s' ∧ Inv ratios s' ∧
      s.arrived <+: s'.arrived := by
  induction run generalizing s with
  | nil => exact ⟨s, rfl, h, prefix_rfl⟩
  | cons op run ih =>
      obtain ⟨t, ht, hinv, hpre⟩ := h.step hratios hsum (hrun op mem_cons_self)
      obtain ⟨u, hu, hinv', hpre'⟩ := ih hinv fun op' hop' => hrun op' (mem_cons_of_mem op hop')
      refine ⟨u, ?_, hinv', hpre.trans hpre'⟩
      rw [exec_cons, ht, Option.bind_some, hu]

/-! ## The shares -/

theorem toNat_pos {ratio : UInt32} (h : ratio ≠ 0) : 0 < ratio.toNat := by
  rw [Nat.pos_iff_ne_zero, ← UInt32.toNat_zero, ne_eq, UInt32.toNat_inj]
  exact h

/-- The limits never exceed the shares, also where the product wraps around. -/
theorem segmentLimit_le (h : MadeWith ratios p) (hsum : (ratios.map UInt32.toNat).sum < 2 ^ 32)
    (n : ℕ) (ratio : UInt32) :
    segmentLimit n ratio p.totalRatioWeight ≤ n * ratio.toNat / (ratios.map UInt32.toNat).sum := by
  rw [segmentLimit, h.total_eq, Nat.mod_eq_of_lt hsum]
  exact Nat.div_le_div_right (Nat.mod_le _ _)

theorem sum_length_le {W : ℕ} (hW : 0 < W) (hlength : segments.length = ratios.length)
    (hshares : ∀ x ∈ segments.zip ratios, x.1.length ≤ n * x.2.toNat / W) :
    segments.flatten.length * W ≤ n * (ratios.map UInt32.toNat).sum := by
  induction segments generalizing ratios with
  | nil => simp
  | cons segment segments ih =>
      cases ratios with
      | nil => simp at hlength
      | cons ratio ratios =>
          have hfirst := hshares (segment, ratio) mem_cons_self
          rw [Nat.le_div_iff_mul_le hW] at hfirst
          have hrest := ih (Nat.succ.inj hlength) fun x hx => hshares x (mem_cons_of_mem _ hx)
          rw [flatten_cons, length_append, map_cons, sum_cons, Nat.add_mul,
            Nat.mul_add]
          exact Nat.add_le_add hfirst hrest

theorem Inv.serves (h : Inv ratios s) (hratios : ratios ≠ []) (hne : ∀ ratio ∈ ratios, ratio ≠ 0)
    (hsum : (ratios.map UInt32.toNat).sum < 2 ^ 32) (hpos : (ratios.map UInt32.toNat).sum ≠ 0) :
    Serves ratios s := by
  have htotal : s.policy.totalRatioWeight ≠ 0 :=
    h.made.total_ne_zero (by rwa [Nat.mod_eq_of_lt hsum])
  have hshares : ∀ x ∈ (s.policy.segments.zip ratios).tail, x.1.length ≤
      s.policy.segments.flatten.length * x.2.toNat / (ratios.map UInt32.toNat).sum := by
    intro x hx
    have hlimit := h.within x (by rwa [h.made.ratio_eq])
    rw [numElementsLocked_eq] at hlimit
    exact hlimit.trans (segmentLimit_le h.made hsum _ _)
  obtain ⟨policy, hevict, -⟩ := evict_spec h.made hratios htotal h.within
  refine ⟨h.held, ⟨policy, hevict⟩, fun hlow => ?_, hshares⟩
  have hlength := h.made.length_eq
  unfold lowest at hlow
  cases hsegments : s.policy.segments with
  | nil => rfl
  | cons low rest =>
      obtain ⟨ratio, ratios, rfl⟩ := exists_cons_of_ne_nil hratios
      rw [hsegments] at hlow hshares hlength
      obtain rfl : low = [] := hlow
      -- the share of the lowest segment is missing in the sum
      have hle := sum_length_le (Nat.pos_of_ne_zero hpos) (Nat.succ.inj hlength) hshares
      have hratio := toNat_pos (hne ratio mem_cons_self)
      rw [flatten_cons, nil_append] at hle ⊢
      rw [map_cons, sum_cons] at hle
      by_contra hrest
      have hsums := Nat.le_of_mul_le_mul_left hle (length_pos_iff.mpr hrest)
      omega

/-! ## Ratios that are too large -/

section Wrapped

variable {low mid : List Node} {first second : UInt32}

/-- A cascade through empty segments -/
theorem rebalanceFrom_replicate (htotal : total ≠ 0) (n : ℕ) (first second : UInt32)
    (ratios : List UInt32) (low mid : List Node) :
    rebalanceFrom n total (replicate ratios.length [] ++ [mid, low]) (ratios ++ [second, first]) =
      some (replicate ratios.length [] ++
        [mid.drop (mid.length - segmentLimit n second total),
          low ++ mid.take (mid.length - segmentLimit n second total)]) := by
  induction ratios with
  | nil =>
      show rebalanceFrom n total [mid, low] [second, first] = _
      rw [rebalanceFrom, if_neg htotal, demote_eq]
      rfl
  | cons ratio ratios ih =>
      rw [length_cons, replicate_succ, cons_append, cons_append]
      obtain ⟨next, rest, hrest⟩ : ∃ next rest,
          replicate ratios.length [] ++ [mid, low] = next :: rest :=
        exists_cons_of_ne_nil (by simp)
      rw [hrest, rebalanceFrom, if_neg htotal, demote_eq]
      simp only [length_nil, Nat.zero_sub, drop_nil, take_nil, append_nil]
      rw [← hrest, ih]
      rfl

theorem rebalanceFrom_zero (hsegments : 2 ≤ segments.length)
    (hlength : segments.length = ratios.length) : rebalanceFrom n 0 segments ratios = none := by
  match segments, ratios, hsegments, hlength with
  | curr :: next :: rest, ratio :: ratios, _, _ => rw [rebalanceFrom, if_pos rfl]

/-- A policy that was used with the second lowest priority only -/
def filled (first second : UInt32) (rest : List UInt32) (total : UInt32) (low mid : List Node) :
    SegmentedFifoPolicy where
  segmentRatio := first :: second :: rest
  totalRatioWeight := total
  segments := low :: mid :: replicate rest.length []

theorem numElementsLocked_filled (rest : List UInt32) :
    (filled first second rest total low mid).numElementsLocked = low.length + mid.length := by
  simp [filled, numElementsLocked]

theorem track_filled (htotal : total ≠ 0) (rest : List UInt32) (rid : UInt32) (now : ℕ) :
    (filled first second rest total low []).track rid 1 now = some
      (if segmentLimit (low.length + 1) second total = 0
        then filled first second rest total (low ++ [⟨rid, now⟩]) []
        else filled first second rest total low [⟨rid, now⟩]) := by
  have hcascade := rebalanceFrom_replicate htotal (low.length + 1) first second rest.reverse low
    [⟨rid, now⟩]
  have hrebalance : rebalanceLocked (filled first second rest total low [⟨rid, now⟩]) = some
      (filled first second rest total
        (low ++ [⟨rid, now⟩].take (1 - segmentLimit (low.length + 1) second total))
        ([⟨rid, now⟩].drop (1 - segmentLimit (low.length + 1) second total))) := by
    rw [rebalanceLocked, numElementsLocked_filled]
    simp only [filled, reverse_cons, reverse_replicate, append_assoc, length_cons,
      length_nil, length_reverse, cons_append, nil_append] at hcascade ⊢
    rw [hcascade]
    simp
  have htrack : (filled first second rest total low []).track rid 1 now =
      rebalanceLocked (filled first second rest total low [⟨rid, now⟩]) :=
    if_pos (by simp [filled])
  rw [htrack, hrebalance]
  split_ifs with hlimit
  · rw [hlimit]
    rfl
  · rw [Nat.sub_eq_zero_of_le (Nat.one_le_iff_ne_zero.mpr hlimit), take_zero, append_nil]
    rfl

/-- As long as its limit is zero, everything goes through the second segment. -/
theorem exec_filled (htotal : total ≠ 0) (first : UInt32) (rest : List UInt32) {k : ℕ}
    (hlimit : ∀ m, m ≤ k → m * second.toNat < total.toNat) :
    ∃ low tracked, low.length = k ∧
      exec step { policy := filled first second rest total [] [] } (replicate k (.track 0 1 0)) =
        some { policy := filled first second rest total low [], tracked, evicted := [] } := by
  induction k with
  | zero => exact ⟨[], [], rfl, rfl⟩
  | succ k ih =>
      obtain ⟨low, tracked, hlow, hrun⟩ := ih fun m hm => hlimit m (hm.trans k.le_succ)
      have hzero : segmentLimit (low.length + 1) second total = 0 := by
        rw [segmentLimit, hlow]
        exact Nat.div_eq_of_lt ((Nat.mod_le _ _).trans_lt (hlimit _ le_rfl))
      refine ⟨low ++ [⟨0, 0⟩], tracked ++ [0], by simp [hlow], ?_⟩
      rw [replicate_succ', exec_append, hrun, Option.bind_some, exec_cons, step,
        track_filled htotal, if_pos hzero]
      rfl

/-- The second segment keeps a region before its share comes to one. -/
theorem exists_not_serves (hmake : make ratios = .ok p)
    (hsum : 2 ^ 32 ≤ (ratios.map UInt32.toNat).sum) :
    ∃ run : List Op, (∀ op ∈ run, op.InRange ratios) ∧
      ∀ s, exec step { policy := p } run = some s → ¬ Serves ratios s := by
  obtain ⟨hmade, hne, -, hempty⟩ := make_spec hmake
  -- a single ratio is below 2 ^ 32
  obtain ⟨first, second, rest, rfl⟩ : ∃ first second rest, ratios = first :: second :: rest := by
    match ratios, hsum with
    | [], hsum => simp at hsum
    | [ratio], hsum =>
        have hlt := ratio.toNat_lt
        simp only [map_cons, map_nil, sum_cons, sum_nil, Nat.add_zero] at hsum
        omega
    | first :: second :: rest, _ => exact ⟨first, second, rest, rfl⟩
  have hp : p = filled first second rest p.totalRatioWeight [] [] := by
    obtain ⟨segmentRatio, total, segments⟩ := p
    obtain rfl : segmentRatio = _ := hmade.ratio_eq
    obtain rfl : segments = _ := hempty
    rfl
  generalize htotal : p.totalRatioWeight = total at hp
  have hweight := hmade.total_eq
  rw [htotal] at hweight
  by_cases hzero : total = 0
  · -- the first call divides by zero
    subst hzero
    refine ⟨[.track 0 1 0], by simp [Op.InRange], fun s hs => ?_⟩
    have hnone : rebalanceLocked (filled first second rest 0 [] [⟨0, 0⟩]) = none := by
      rw [rebalanceLocked]
      simp only [filled]
      rw [rebalanceFrom_zero (by simp) (by simp)]
      rfl
    have htrack : (filled first second rest 0 [] []).track 0 1 0 = none :=
      (if_pos (by simp [filled])).trans hnone
    rw [hp, exec_cons, step, htrack] at hs
    exact absurd hs (by simp)
  · have hsecond := toNat_pos (hne second (by simp))
    have hpos := toNat_pos hzero
    have hlt := second.toNat_lt
    -- the last number of regions for which the second segment keeps none
    obtain ⟨k, hk, hk'⟩ : ∃ k, k * second.toNat < total.toNat ∧
        total.toNat ≤ (k + 1) * second.toNat := by
      have hdiv := Nat.div_add_mod' (total.toNat - 1) second.toNat
      have hmod := Nat.mod_lt (total.toNat - 1) hsecond
      refine ⟨(total.toNat - 1) / second.toNat, by omega, ?_⟩
      rw [Nat.succ_mul]
      omega
    have hbelow : (k + 1) * second.toNat < total.toNat + second.toNat := by
      rw [Nat.succ_mul]
      omega
    obtain ⟨low, tracked, hlow, hrun⟩ := exec_filled hzero first rest
      fun m (hm : m ≤ k) => (Nat.mul_le_mul_right _ hm).trans_lt hk
    have hlimit : segmentLimit (low.length + 1) second total ≠ 0 := by
      rw [segmentLimit, hlow, Nat.mod_eq_of_lt (by omega)]
      exact (Nat.div_pos hk' hpos).ne'
    refine ⟨replicate (k + 1) (.track 0 1 0), by simp [Op.InRange], fun s hs hserves => ?_⟩
    rw [hp, replicate_succ', exec_append, hrun, Option.bind_some, exec_cons, step,
      track_filled hzero, if_neg hlimit] at hs
    obtain rfl := Option.some.inj hs
    have hshare : 1 ≤ (filled first second rest total low [⟨0, 0⟩]).segments.flatten.length *
        second.toNat / ((first :: second :: rest).map UInt32.toNat).sum :=
      hserves.shares ([⟨0, 0⟩], second) (by simp [filled])
    have hall : (filled first second rest total low [⟨0, 0⟩]).segments.flatten.length = k + 1 := by
      simp [filled, hlow]
    rw [hall, Nat.div_eq_of_lt (by omega)] at hshare
    exact absurd hshare (by simp)

/-- **When the policy serves.** For every vector of ratios that is accepted, the policy serves in every
run exactly if the sum of the ratios does not wrap around. The last line says that regions leave the
lowest segment in the order in which they came to it. -/
theorem serves_iff (ratios : List UInt32) (p : SegmentedFifoPolicy) (hmake : make ratios = .ok p) :
    (∀ run : List Op, (∀ op ∈ run, op.InRange ratios) →
      ∃ s, exec step { policy := p } run = some s ∧ Serves ratios s ∧
        ∀ pre, pre <+: run →
          ∃ s₀, exec step { policy := p } pre = some s₀ ∧ s₀.arrived <+: s.arrived) ↔
      (ratios.map UInt32.toNat).sum < 2 ^ 32 := by
  constructor
  · intro hserves
    by_contra hsum
    obtain ⟨run, hrange, hnot⟩ := exists_not_serves hmake (not_lt.mp hsum)
    obtain ⟨s, hrun, hs, -⟩ := hserves run hrange
    exact hnot s hrun hs
  · intro hsum run hrange
    obtain ⟨hmade, hne, hratios, hempty⟩ := make_spec hmake
    have hpos : (ratios.map UInt32.toNat).sum ≠ 0 := by
      obtain ⟨ratio, hmem⟩ := exists_mem_of_ne_nil _ hratios
      have hle := single_le_sum (fun _ _ => Nat.zero_le _) _
        (mem_map_of_mem (f := UInt32.toNat) hmem)
      exact ((toNat_pos (hne ratio hmem)).trans_le hle).ne'
    have hmod : (ratios.map UInt32.toNat).sum % 2 ^ 32 ≠ 0 := by rwa [Nat.mod_eq_of_lt hsum]
    have hinv : Inv ratios { policy := p } := by
      refine ⟨hmade, by simp [hempty], fun x hx => ?_⟩
      have hmem := (of_mem_zip (mem_of_mem_tail hx)).1
      rw [hempty] at hmem
      rw [eq_of_mem_replicate hmem]
      exact Nat.zero_le _
    obtain ⟨s, hrun, hs, -⟩ := hinv.exec hratios hmod hrange
    refine ⟨s, hrun, hs.serves hratios hne hsum hpos, ?_⟩
    rintro pre ⟨post, rfl⟩
    obtain ⟨s₀, hpre, hs₀, -⟩ := hinv.exec hratios hmod fun op hop =>
      hrange op (mem_append_left post hop)
    obtain ⟨s₁, hpost, -, harrived⟩ := hs₀.exec hratios hmod fun op hop =>
      hrange op (mem_append_right pre hop)
    rw [exec_append, hpre, Option.bind_some, hpost] at hrun
    obtain rfl := Option.some.inj hrun
    exact ⟨s₀, hpre, harrived⟩

theorem serves_iff_oneOneOne :
    ∃ p, make [1, 1, 1] = .ok p ∧
      ∀ run : List Op, (∀ op ∈ run, op.InRange [1, 1, 1]) →
        ∃ s, exec step { policy := p } run = some s ∧ Serves [1, 1, 1] s := by
  refine ⟨_, rfl, fun run hrange => ?_⟩
  obtain ⟨s, hrun, hs, -⟩ := (serves_iff [1, 1, 1] _ rfl).mpr (by decide) run hrange
  exact ⟨s, hrun, hs⟩

/-- Two ratios of half of the range and a ratio of two: the sum wraps around to two. A region that is
tracked with the highest priority stays there, and then there is nothing to evict. -/
theorem tracked_and_not_evicted :
    ∃ p s, make [2147483648, 2147483648, 2] = .ok p ∧
      exec step { policy := p } [.track 7 2 0, .evict] = some s ∧
        s.tracked = [7] ∧ s.evicted = [] ∧ s.policy.segments = [[], [], [⟨7, 0⟩]] :=
  ⟨_, _, rfl, rfl, rfl, rfl, rfl⟩

end Wrapped

end SegmentedFifoPolicy

end CacheLib.Navy
