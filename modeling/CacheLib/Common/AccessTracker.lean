/-
Access counts per bucket span (`cachelib/common/AccessTracker.h`), with one thread and exact
counters.

The spans of the last `numBuckets` buckets share an array cyclically. A call clears the
bucket of its own span when it is the first in it, and only that one; a call whose bucket is
the one before the most recent is taken for that of a late thread.
-/
import CacheLib.Lib.Run
import Mathlib.Data.Int.ModEq
import Mathlib.Tactic.SplitIfs

set_option autoImplicit false

namespace CacheLib.AccessTracker

open Transition List Option Function

structure Config where
  numBuckets : ℕ
  numTicksPerBucket : ℕ

variable {Key : Type}

structure State (Key : Type) where
  mostRecentAccessedBucket : ℕ := 0
  counts : ℕ → Key → ℕ := fun _ _ => 0

inductive Call (Key : Type) where
  | recordAccess (tick : ℕ) (key : Key)
  | getAccesses (tick : ℕ) (key : Key)

def Call.tick : Call Key → ℕ
  | .recordAccess tick _ | .getAccesses tick _ => tick

section Functions

variable [DecidableEq Key] (cfg : Config) (s : State Key) (tick : ℕ) (key : Key)

def rotatedIdx (bucket : ℕ) : ℕ := bucket % cfg.numBuckets

def getCurrentBucketIndex : ℕ := rotatedIdx cfg (tick / cfg.numTicksPerBucket)

/-- `resetBucketLocked` clears the bucket. -/
def updateMostRecentAccessedBucket : State Key :=
  let bucketIdx := getCurrentBucketIndex cfg tick
  if bucketIdx = s.mostRecentAccessedBucket
      ∨ rotatedIdx cfg (bucketIdx + 1) = s.mostRecentAccessedBucket then s
  else ⟨bucketIdx, update s.counts bucketIdx fun _ => 0⟩

def recordAccess : State Key :=
  let s := updateMostRecentAccessedBucket cfg s tick
  let idx := s.mostRecentAccessedBucket
  { s with
    counts := update s.counts idx
      (update (s.counts idx) key (s.counts idx key + 1)) }

def getAccesses : State Key × List ℕ :=
  let s := updateMostRecentAccessedBucket cfg s tick
  (s, (range cfg.numBuckets).map fun i =>
    s.counts (rotatedIdx cfg (s.mostRecentAccessedBucket + cfg.numBuckets - i)) key)

/-- A call, with the bucket span of the last one beside the tracker. -/
def step (r : State Key × ℕ) (c : Call Key) : Option (State Key × ℕ) :=
  match c with
  | .recordAccess tick key => some (recordAccess cfg r.1 tick key, tick / cfg.numTicksPerBucket)
  | .getAccesses tick key => some ((getAccesses cfg r.1 tick key).1, tick / cfg.numTicksPerBucket)

/-- How often the key was recorded in the span `i` before `span`. -/
def recorded (calls : List (Call Key)) (span i : ℕ) : ℕ :=
  calls.countP fun
    | .recordAccess tick key' => key' = key ∧ tick / cfg.numTicksPerBucket + i = span
    | .getAccesses _ _ => false

/-- **The condition.** The call is in the span of the last one. Or it is in a later one,
whose bucket is neither the most recent one nor the one before that, and the buckets of
the spans passed over are empty. Or it has come back to the same bucket, and all are. -/
def Timely (r : State Key × ℕ) (c : Call Key) : Prop :=
  let span := c.tick / cfg.numTicksPerBucket
  let idx := getCurrentBucketIndex cfg c.tick
  span = r.2 ∨ r.2 < span ∧
    (idx = r.1.mostRecentAccessedBucket ∧ (∀ j key, r.1.counts j key = 0) ∨
      idx ≠ r.1.mostRecentAccessedBucket ∧ rotatedIdx cfg (idx + 1) ≠ r.1.mostRecentAccessedBucket ∧
        ∀ i < cfg.numBuckets, 0 < i → r.2 + i < span →
          ∀ key, r.1.counts (rotatedIdx cfg (span + cfg.numBuckets - i)) key = 0)

end Functions

/-- The most recent bucket is that of the span, and each bucket has the count of its own. -/
structure Exact [DecidableEq Key] (cfg : Config) (past : List (Call Key)) (s : State Key)
    (span : ℕ) : Prop where
  recent : s.mostRecentAccessedBucket = rotatedIdx cfg span
  past_le : ∀ c ∈ past, c.tick / cfg.numTicksPerBucket ≤ span
  counts : ∀ i < cfg.numBuckets, ∀ key,
    s.counts (rotatedIdx cfg (span + cfg.numBuckets - i)) key = recorded cfg key past span i

variable [DecidableEq Key] {cfg : Config} {past : List (Call Key)} {s : State Key} {span : ℕ}
  {c : Call Key}

theorem rotatedIdx_zero (cfg : Config) (span : ℕ) :
    rotatedIdx cfg (span + cfg.numBuckets - 0) = rotatedIdx cfg span :=
  Nat.add_mod_right span cfg.numBuckets

/-- Another bucket of the window is not the most recent one. -/
theorem rotatedIdx_ne {i : ℕ} (hi : i < cfg.numBuckets) (hpos : 0 < i) :
    rotatedIdx cfg (span + cfg.numBuckets - i) ≠ rotatedIdx cfg span := by
  intro heq
  have hdvd := (Nat.modEq_iff_dvd' (by omega)).mp (show span ≡ span + cfg.numBuckets - i
    [MOD cfg.numBuckets] from heq.symm)
  have hle := Nat.le_of_dvd (by omega) hdvd
  omega

/-- Nothing is recorded yet in a later span, and the earlier ones have moved back. -/
theorem recorded_later (hpast : ∀ c ∈ past, c.tick / cfg.numTicksPerBucket ≤ span)
    (later : ℕ) (key : Key) (i : ℕ) : recorded cfg key past later i
      = if later ≤ span + i then recorded cfg key past span (i + span - later) else 0 := by
  split_ifs with hi
  · refine countP_congr fun c hc => ?_
    have hspan := hpast c hc
    cases c with
    | recordAccess tick key' =>
        simp only [Call.tick, decide_eq_true_eq] at hspan ⊢
        exact and_congr_right fun _ => by omega
    | getAccesses tick key' => rfl
  · rw [recorded, countP_eq_zero]
    intro c hc
    have hspan := hpast c hc
    cases c with
    | recordAccess tick key' =>
        simp only [Call.tick, decide_eq_true_eq] at hspan ⊢
        omega
    | getAccesses tick key' => simp

theorem recorded_append (key key' : Key) (tick i : ℕ) :
    recorded cfg key' (past ++ [.recordAccess tick key]) span i = recorded cfg key' past span i
      + if key = key' ∧ tick / cfg.numTicksPerBucket + i = span then 1 else 0 := by
  simp [recorded, countP_append, countP_singleton]

theorem Exact.update (h : Exact cfg past s span) (hc : Timely cfg (s, span) c) :
    Exact cfg past (updateMostRecentAccessedBucket cfg s c.tick)
      (c.tick / cfg.numTicksPerBucket) := by
  unfold Timely at hc
  dsimp only at hc
  generalize hlater : c.tick / cfg.numTicksPerBucket = later at hc ⊢
  have hidx : getCurrentBucketIndex cfg c.tick = rotatedIdx cfg later := by rw [← hlater]; rfl
  unfold updateMostRecentAccessedBucket
  simp only [hidx] at hc ⊢
  rcases hc with rfl | ⟨hlt, hc⟩
  · rw [if_pos (Or.inl h.recent.symm)]
    exact h
  have hpast : ∀ c ∈ past, c.tick / cfg.numTicksPerBucket ≤ later :=
    fun c hmem => (h.past_le c hmem).trans hlt.le
  -- a bucket that stays in the window
  have hstays : ∀ i < cfg.numBuckets, ∀ key, later ≤ span + i →
      s.counts (rotatedIdx cfg (later + cfg.numBuckets - i)) key
        = recorded cfg key past span (i + span - later) := by
    intro i hi key hle
    rw [← h.counts _ (by omega)]
    congr 2
    omega
  rcases hc with ⟨hrecent, hzero⟩ | ⟨hrecent, hborder, hskipped⟩
  · rw [if_pos (Or.inl hrecent)]
    refine ⟨hrecent.symm, hpast, fun i hi key => ?_⟩
    rw [recorded_later h.past_le]
    split_ifs with hle
    · exact hstays i hi key hle
    · exact hzero _ key
  · rw [if_neg (not_or.mpr ⟨hrecent, hborder⟩)]
    refine ⟨rfl, hpast, fun i hi key => ?_⟩
    rw [recorded_later h.past_le]
    dsimp only
    rcases Nat.eq_zero_or_pos i with rfl | hpos
    · rw [rotatedIdx_zero, update_self, if_neg (by omega)]
    · rw [update_of_ne (rotatedIdx_ne hi hpos)]
      split_ifs with hle
      · exact hstays i hi key hle
      · exact hskipped i hi hpos (by omega) key

theorem Exact.step {r r' : State Key × ℕ} (h : Exact cfg past r.1 r.2) (hc : Timely cfg r c)
    (hstep : step cfg r c = some r') : Exact cfg (past ++ [c]) r'.1 r'.2 := by
  have hupdate := h.update hc
  have hpast : ∀ c' ∈ past ++ [c], c'.tick / cfg.numTicksPerBucket
      ≤ c.tick / cfg.numTicksPerBucket := by
    intro c' hmem
    rcases mem_append.mp hmem with hmem | hmem
    · exact hupdate.past_le c' hmem
    · rw [mem_singleton.mp hmem]
  cases c with
  | getAccesses tick key =>
      obtain rfl := some.inj hstep
      refine ⟨hupdate.recent, hpast, fun i hi key' => ?_⟩
      rw [recorded, countP_append]
      exact hupdate.counts i hi key'
  | recordAccess tick key =>
      obtain rfl := some.inj hstep
      refine ⟨hupdate.recent, hpast, fun i hi key' => ?_⟩
      have hcount := hupdate.counts i hi key'
      have hrecent := hupdate.recent
      simp only [recordAccess, recorded_append, Call.tick] at hcount hrecent ⊢
      generalize updateMostRecentAccessedBucket cfg r.1 tick = s₁ at hcount hrecent ⊢
      rcases Nat.eq_zero_or_pos i with rfl | hpos
      · rw [rotatedIdx_zero, ← hrecent] at hcount ⊢
        rw [update_self]
        by_cases hkey : key = key'
        · subst hkey
          simp [hcount]
        · simp [hkey, Ne.symm hkey, hcount]
      · rw [update_of_ne (hrecent ▸ rotatedIdx_ne hi hpos), hcount, if_neg (by omega)]
        rfl

/-- **Any run.** If every call comes in time, element `i` of the result is the number of
recorded accesses of the key in the span `i` before that of the call. -/
theorem getAccesses_eq_recorded {calls : List (Call Key)} {r : State Key × ℕ} {tick : ℕ} {key : Key}
    (hrun : exec (step cfg) ({}, 0) calls = some r)
    (hcalls : Along (step cfg) (Timely cfg) ({}, 0) calls)
    (hlast : Timely cfg r (.getAccesses tick key)) {i : ℕ} (hi : i < cfg.numBuckets) :
    (getAccesses cfg r.1 tick key).2[i]?
      = some (recorded cfg key calls (tick / cfg.numTicksPerBucket) i) := by
  have hkeep : ∀ (past : List (Call Key)) (r : State Key × ℕ) (c : Call Key) (r' : State Key × ℕ),
      Exact cfg past r.1 r.2 → Timely cfg r c → step cfg r c = some r' →
        Exact cfg (past ++ [c]) r'.1 r'.2 := fun _ _ _ _ h hc hstep => h.step hc hstep
  have hinit : Exact cfg ([] : List (Call Key)) {} 0 :=
    ⟨(Nat.zero_mod _).symm, by simp, fun _ _ _ => rfl⟩
  have hexact := (exec_invariant_history hkeep hrun hcalls hinit).update hlast
  have hrotated : rotatedIdx cfg ((updateMostRecentAccessedBucket cfg r.1 tick).mostRecentAccessedBucket
      + cfg.numBuckets - i) = rotatedIdx cfg (tick / cfg.numTicksPerBucket + cfg.numBuckets - i) := by
    have hrecent : (updateMostRecentAccessedBucket cfg r.1 tick).mostRecentAccessedBucket
        = rotatedIdx cfg (tick / cfg.numTicksPerBucket) := hexact.recent
    rw [hrecent, Nat.add_sub_assoc hi.le, Nat.add_sub_assoc hi.le]
    exact Nat.mod_add_mod _ _ _
  simp only [getAccesses, getElem?_map, getElem?_range hi, map_some, hrotated]
  exact congrArg some (hexact.counts i hi key)

/-- One access, and the next span. -/
theorem getAccesses_eq_recorded_next :
    (getAccesses ⟨3, 1⟩ (recordAccess ⟨3, 1⟩ {} 0 ()) 1 ()).2[1]?
      = some (recorded ⟨3, 1⟩ () [.recordAccess 0 ()] 1 1) := by
  have hrun : exec (step ⟨3, 1⟩) ({}, 0) [.recordAccess 0 ()]
      = some (recordAccess ⟨3, 1⟩ {} 0 (), 0) := rfl
  refine getAccesses_eq_recorded hrun ⟨Or.inl rfl, fun _ _ => trivial⟩ (Or.inr ⟨by decide,
    Or.inr ⟨by decide, by decide, fun i _ hpos hlt => ?_⟩⟩) (by decide)
  change 0 + i < 1 at hlt
  omega

/-- An access, and nothing until the same bucket comes round: it is counted as one of the
present span. -/
theorem getAccesses_counts_expired :
    ∃ r, exec (step ⟨3, 1⟩) ({}, 0) [.recordAccess 0 ()] = some r ∧
      (getAccesses ⟨3, 1⟩ r.1 3 ()).2[0]? ≠ some (recorded ⟨3, 1⟩ () [.recordAccess 0 ()] 3 0) :=
  ⟨_, rfl, by decide⟩

end CacheLib.AccessTracker
