/-
The rate that `DynamicRandomAP` observes (`cachelib/navy/admission_policy/DynamicRandomAP.cpp`).

An update divides the bytes written since the last one by the seconds since then. It saves the time
at once and the bytes at its end, and may return before that. The bytes it has seen are then counted
by the next update as well, whose seconds start anew. What is computed in `double`s is a parameter:
only whether a rate is zero matters.
-/
import Mathlib.Data.List.Basic
import Mathlib.Tactic.SplitIfs

set_option autoImplicit false

namespace CacheLib.Navy.DynamicRandomAP

/-- The configuration, with what is computed in `double`s of type `F` -/
structure Config (F : Type) where
  targetRate : UInt64
  updateInterval : UInt64
  probabilitySeed : F
  /-- `bypassedBytesDiff * waf / updateTimeDelta` -/
  bypassedTarget : (bypassedBytesDiff bytesWrittenDiff totalBytes updateTimeDelta : UInt64) → UInt64
  /-- `observedCurRate * ratio` -/
  regularRate : (observedCurRate acceptedBytesDiff totalBytes : UInt64) → UInt64
  /-- The clamped product with the clamped change -/
  nextFactor : F → (trueTargetRate trueObservedRate : UInt64) → F

/-- What an update reads: the clock, whose seconds are not negative, the byte counters, and a limit
that can be set at any time -/
structure Reading where
  curTime : UInt64 := 0
  bytesWritten : UInt64 := 0
  acceptedBytes : UInt64 := 0
  bypassedBytes : UInt64 := 0
  maxRate : UInt64 := 0

/-- `ThrottleParams`, `WriteStats` and `startupTime_` -/
structure State (F : Type) where
  startupTime : UInt64 := 0
  updateTime : UInt64 := 0
  probabilityFactor : F
  curTargetRate : UInt64 := 0
  observedCurRate : UInt64 := 0
  bytesWrittenLastUpdate : UInt64 := 0
  bypassedRate : UInt64 := 0
  acceptedRate : UInt64 := 0
  bytesBypassedLastUpdate : UInt64 := 0
  bytesAcceptedLastUpdate : UInt64 := 0

def kSecondsInDay : UInt64 := 3600 * 24

def minus (a b : UInt64) : UInt64 := if a < b then 0 else a - b

variable {F : Type} (cfg : Config F) (s : State F) (r : Reading)

def reset : State F :=
  { s with
    startupTime := r.curTime
    updateTime := r.curTime
    probabilityFactor := cfg.probabilitySeed
    curTargetRate := 0
    bytesWrittenLastUpdate := r.bytesWritten
    bytesAcceptedLastUpdate := r.acceptedBytes
    bytesBypassedLastUpdate := r.bypassedBytes }

def updateTimeDelta : UInt64 :=
  if r.curTime ≤ s.updateTime then cfg.updateInterval else r.curTime - s.updateTime

def observedRate : UInt64 :=
  (r.bytesWritten - s.bytesWrittenLastUpdate) / updateTimeDelta cfg s r

/-- The target of the whole traffic, at most `maxRate` if there is one -/
def targetRate : UInt64 :=
  let targetWrittenTomorrow := cfg.targetRate * (r.curTime - s.startupTime + kSecondsInDay)
  let curTargetRate :=
    if r.bytesWritten < targetWrittenTomorrow then
      (targetWrittenTomorrow - r.bytesWritten) / kSecondsInDay
    else 0
  if 0 < r.maxRate ∧ r.maxRate < curTargetRate then r.maxRate else curTargetRate

/-- `trueTargetRate` and `trueObservedRate`, those of the regular traffic -/
def trueRates : UInt64 × UInt64 :=
  let acceptedBytesDiff := r.acceptedBytes - s.bytesAcceptedLastUpdate
  let bypassedBytesDiff := r.bypassedBytes - s.bytesBypassedLastUpdate
  let totalBytes := acceptedBytesDiff + bypassedBytesDiff
  if totalBytes = 0 then (minus (targetRate cfg s r) (observedRate cfg s r), 0)
  else
    (minus (targetRate cfg s r) (cfg.bypassedTarget bypassedBytesDiff
        (r.bytesWritten - s.bytesWrittenLastUpdate) totalBytes (updateTimeDelta cfg s r)),
      cfg.regularRate (observedRate cfg s r) acceptedBytesDiff totalBytes)

/-- `updateThrottleParamsLocked` -/
def updateThrottleParams : State F :=
  let delta := updateTimeDelta cfg s r
  let timed := { s with updateTime := r.curTime, observedCurRate := observedRate cfg s r }
  -- no bytes observed from the device
  if observedRate cfg s r = 0 then timed
  else
    let (trueTargetRate, trueObservedRate) := trueRates cfg s r
    let accounted :=
      { timed with
        curTargetRate := targetRate cfg s r
        acceptedRate := (r.acceptedBytes - s.bytesAcceptedLastUpdate) / delta
        bytesAcceptedLastUpdate := r.acceptedBytes
        bypassedRate := (r.bypassedBytes - s.bytesBypassedLastUpdate) / delta
        bytesBypassedLastUpdate := r.bypassedBytes }
    -- no observed regular traffic
    if trueObservedRate = 0 then accounted
    else
      { accounted with
        probabilityFactor := cfg.nextFactor s.probabilityFactor trueTargetRate trueObservedRate
        bytesWrittenLastUpdate := r.bytesWritten }

/-- **The condition.** The update is not skipped, or it is and no bytes were written. -/
def Counts : Prop :=
  (observedRate cfg s r ≠ 0 ∧ (trueRates cfg s r).2 ≠ 0) ∨ r.bytesWritten = s.bytesWrittenLastUpdate

/-- Every update starts the next time window. The next byte window starts with it exactly when it
counts. -/
theorem window_of_update : (updateThrottleParams cfg s r).observedCurRate = observedRate cfg s r ∧
    (updateThrottleParams cfg s r).updateTime = r.curTime ∧
    ((updateThrottleParams cfg s r).bytesWrittenLastUpdate = r.bytesWritten ↔ Counts cfg s r) := by
  unfold updateThrottleParams Counts
  dsimp only
  split_ifs with hobserved htrue
  · simp [hobserved, eq_comm]
  · simp [htrue, eq_comm]
  · simp [hobserved, htrue]

/-- The second reading is later than the first, and has no fewer bytes. -/
structure Reading.Before (prev r : Reading) : Prop where
  time : prev.curTime < r.curTime
  bytes : prev.bytesWritten ≤ r.bytesWritten

/-- The state after a reset and some updates -/
def after (r₀ : Reading) (rs : List Reading) : State F :=
  rs.foldl (updateThrottleParams cfg) (reset cfg s r₀)

variable {cfg s r} {r₀ : Reading}

theorem observedRate_of_window {prev : Reading} (hafter : prev.Before r)
    (htime : s.updateTime = prev.curTime) (hbytes : s.bytesWrittenLastUpdate = prev.bytesWritten) :
    (observedRate cfg s r).toNat = (r.bytesWritten.toNat - prev.bytesWritten.toNat)
      / (r.curTime.toNat - prev.curTime.toNat) := by
  rw [observedRate, updateTimeDelta, htime, hbytes, if_neg (UInt64.not_le.mpr hafter.time),
    UInt64.toNat_div, UInt64.toNat_sub_of_le _ _ hafter.bytes,
    UInt64.toNat_sub_of_le _ _ (UInt64.le_of_lt hafter.time)]

/-- **The observed rate.** At every update it is the bytes written since the update before, or since
the reset, over the seconds since then, if the update before counts. -/
theorem observedCurRate_of_updates (rs : List Reading)
    (hcounts : ∀ prev ∈ rs.getLast?, Counts cfg (after cfg s r₀ rs.dropLast) prev)
    (hafter : (rs.getLastD r₀).Before r) :
    (updateThrottleParams cfg (after cfg s r₀ rs) r).observedCurRate.toNat
      = (r.bytesWritten.toNat - (rs.getLastD r₀).bytesWritten.toNat)
        / (r.curTime.toNat - (rs.getLastD r₀).curTime.toNat) := by
  rw [(window_of_update _ _ _).1]
  rcases List.eq_nil_or_concat' rs with rfl | ⟨earlier, prev, rfl⟩
  · exact observedRate_of_window hafter rfl rfl
  · rw [List.getLastD_concat] at hafter ⊢
    rw [List.getLast?_concat, List.dropLast_concat] at hcounts
    obtain ⟨-, htime, hbytes⟩ := window_of_update cfg (after cfg s r₀ earlier) prev
    rw [after, List.foldl_append]
    exact observedRate_of_window hafter htime (hbytes.mpr (hcounts prev rfl))

/-- A policy in which all traffic is regular -/
def allRegular : Config Unit where
  targetRate := 100
  updateInterval := 10
  probabilitySeed := ()
  bypassedTarget := fun _ _ _ _ => 0
  regularRate := fun rate _ _ => rate
  nextFactor := fun _ _ _ => ()

/-- The rate at the update after twenty seconds, with one after ten -/
def rateAtTwenty (first accepted second : UInt64) : UInt64 :=
  (updateThrottleParams allRegular (after allRegular { probabilityFactor := () } {}
    [⟨10, first, accepted, 0, 0⟩]) ⟨20, second, second, 0, 0⟩).observedCurRate

/-- Twenty bytes in ten seconds, and fifty in the next ten -/
theorem observedCurRate_of_updates_regular : (rateAtTwenty 20 20 70).toNat = 5 := by
  refine observedCurRate_of_updates [⟨10, 20, 20, 0, 0⟩] ?_ ⟨by decide, by decide⟩
  rintro _ ⟨⟩
  exact Or.inl (by decide +kernel)

/-- Nine bytes in ten seconds are a rate of zero. With eleven more in the next ten the observed rate
is two instead of one. It doubles as well after bytes without accepted traffic. -/
theorem skipped_bytes_counted_again : rateAtTwenty 9 9 20 = 2 ∧ rateAtTwenty 4000 0 8000 = 800 ∧
    ¬ (rateAtTwenty 9 9 20).toNat = (20 - 9) / (20 - 10) ∧
    ¬ (rateAtTwenty 4000 0 8000).toNat = (8000 - 4000) / (20 - 10) := by
  decide +kernel

end CacheLib.Navy.DynamicRandomAP
