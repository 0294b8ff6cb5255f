/-
Calls that are meant to leave an entry's expiry alone: `increment` and
`decrement` with no ttl of their own, `compareAndSwap` with `keepTtl`, and `incr`
on a live entry.

The cache has no way to rewrite a value under the expiry it has. These methods
turn the expiry into a remaining time with one clock reading and hand that to
`allocate`, which turns it back with a reading of its own. `find` still serves an
entry in the second it expires while the remaining time of such an entry is zero,
and zero means "never expires" to `allocate`.
-/
import CacheLib.Lib.Run
import CacheLib.Server.CacheManager

set_option autoImplicit false

namespace CacheLib.Server

open Decimal Transition

/-- The calls that are meant to leave the expiry alone. -/
inductive KeepCall where
  | increment (delta : Int64)
  | decrement (delta : Int64)
  | compareAndSwap (expectedValue newValue : Bytes) (ttlSeconds : UInt32)
  | incr (delta : Int64) (ttlSeconds : UInt32)
  deriving DecidableEq, Repr

namespace KeepCall

/-- The slot the call leaves. -/
def run (m : CacheManager) (call : KeepCall) (slot : Option Item) (inp : Inputs) : Option Item :=
  match call with
  | .increment delta => (m.increment slot delta 0 inp).1
  | .decrement delta => (m.decrement slot delta 0 inp).1
  | .compareAndSwap expectedValue newValue ttlSeconds =>
      (m.compareAndSwap slot expectedValue newValue ttlSeconds true inp).1
  | .incr delta ttlSeconds => (m.incr slot delta ttlSeconds inp).1

/-- `incr` promises to keep an expiry only as long as its own reading finds it
ahead; afterwards it opens a new window. -/
def Applies (call : KeepCall) (item : Item) (inp : Inputs) : Prop :=
  match call with
  | .incr _ _ => inp.now < item.expiryTime
  | _ => True

instance (call : KeepCall) (item : Item) (inp : Inputs) : Decidable (call.Applies item inp) := by
  cases call <;> unfold Applies <;> infer_instance

/-- The call replaces the item: its value parses, or is the expected one, and
`set` goes through. -/
def Stores (m : CacheManager) (call : KeepCall) (item : Item) (inp : Inputs) : Prop :=
  match call with
  | .increment delta | .incr delta _ =>
      ∃ n, parseInt64 item.value = .ok n ∧ m.stores (toDecimal (n + orOne delta).toInt) inp
  | .decrement delta =>
      ∃ n, parseInt64 item.value = .ok n ∧ m.stores (toDecimal (n + -orOne delta).toInt) inp
  | .compareAndSwap expectedValue newValue _ =>
      item.value = expectedValue ∧ m.stores newValue inp

end KeepCall

/-- The remaining time the methods compute, zero for an expiry that has come. -/
def remaining (item : Item) (now : UInt32) : UInt32 :=
  if item.expiryTime > now then item.expiryTime - now else 0

/-! ## One call -/

section Call

variable {m : CacheManager} {item : Item} {inp : Inputs}

/-- Carrying out a store plan on the slot it was made for. -/
theorem Plan.run_store_fst {ρ : Type} (value : Bytes) (ttlSeconds : UInt32) (stored failed : ρ)
    (slot : Option Item) :
    ((Plan.store value ttlSeconds stored failed).run m slot inp).1
      = if m.stores value inp then some ⟨value, expiryFor inp.creationTime ttlSeconds⟩
        else slot := by
  split_ifs with h
  · rw [Plan.run_store_of_stores h]
  · rw [Plan.run_store_of_not_stores h]

/-- A plan as these calls make it on a found item. -/
def KeepsRemaining {ρ : Type} (plan : Plan ρ) (m : CacheManager) (item : Item) (inp : Inputs)
    (stores : Prop) : Prop :=
  (¬ stores ∧ (plan.run m (some item) inp).1 = some item) ∨
  (stores ∧ ∃ value, (plan.run m (some item) inp).1
    = some ⟨value, expiryFor inp.creationTime (remaining item inp.now)⟩)

theorem keepsRemaining_store {ρ : Type} (value : Bytes) (stored failed : ρ) {stores : Prop}
    (hstores : stores ↔ m.stores value inp) :
    KeepsRemaining (Plan.store value (remaining item inp.now) stored failed) m item inp
      stores := by
  unfold KeepsRemaining
  rw [Plan.run_store_fst]
  by_cases h : m.stores value inp
  · exact Or.inr ⟨hstores.mpr h, value, by rw [if_pos h]⟩
  · exact Or.inl ⟨fun hs => h (hstores.mp hs), by rw [if_neg h]⟩

/-- A plan that gives up on a parse error and stores otherwise. -/
theorem keepsRemaining_parse {ρ : Type} {plan : Plan ρ} {P : Int64 → Prop}
    (herror : ∀ e, parseInt64 item.value = .error e → ∃ r, plan = .reply r)
    (hok : ∀ n, parseInt64 item.value = .ok n → KeepsRemaining plan m item inp (P n)) :
    KeepsRemaining plan m item inp (∃ n, parseInt64 item.value = .ok n ∧ P n) := by
  rcases hparse : parseInt64 item.value with e | n
  · obtain ⟨r, rfl⟩ := herror e hparse
    refine Or.inl ⟨?_, rfl⟩
    rintro ⟨n, hn, _⟩
    exact absurd hn (by simp)
  · simpa using hok n hparse

theorem keepsRemaining_atomicAddPlan (hexpiry : item.expiryTime ≠ 0) (delta : Int64) :
    KeepsRemaining (atomicAddPlan delta 0 (some item) inp.now) m item inp
      (∃ n, parseInt64 item.value = .ok n ∧ m.stores (toDecimal (n + delta).toInt) inp) := by
  have hpos : item.expiryTime > 0 := UInt32.pos_iff_ne_zero.mpr hexpiry
  have httl : (if ((0 : UInt32) == 0 && decide (item.expiryTime > 0) &&
      decide (item.expiryTime > inp.now)) = true then item.expiryTime - inp.now else 0)
      = remaining item inp.now := by
    unfold remaining
    simp [hpos]
  apply keepsRemaining_parse
  · intro e he
    simp only [atomicAddPlan, he]
    exact ⟨_, rfl⟩
  · intro n hn
    simp only [atomicAddPlan, hn, httl]
    exact keepsRemaining_store _ _ _ Iff.rfl

theorem keepsRemaining_incrPlan (hexpiry : item.expiryTime ≠ 0) (hlive : inp.now < item.expiryTime)
    (delta : Int64) (ttlSeconds : UInt32) :
    KeepsRemaining (incrPlan delta ttlSeconds (some item) inp.now) m item inp
      (∃ n, parseInt64 item.value = .ok n ∧ m.stores (toDecimal (n + delta).toInt) inp) := by
  have hne : (item.expiryTime == 0) = false := beq_eq_false_iff_ne.mpr hexpiry
  have hlt : decide (item.expiryTime > inp.now) = true := decide_eq_true hlive
  have hrem : item.expiryTime - inp.now = remaining item inp.now := (if_pos hlive).symm
  apply keepsRemaining_parse
  · intro e he
    simp only [incrPlan, hne, hlt, Bool.or_true, if_true, he]
    exact ⟨_, rfl⟩
  · intro n hn
    simp only [incrPlan, hne, hlt, Bool.or_true, if_true, Bool.false_eq_true, if_false, hn, hrem]
    exact keepsRemaining_store _ _ _ Iff.rfl

theorem keepsRemaining_compareAndSwapPlan (hexpiry : item.expiryTime ≠ 0)
    (expectedValue newValue : Bytes) (ttlSeconds : UInt32) :
    KeepsRemaining (compareAndSwapPlan expectedValue newValue ttlSeconds true (some item) inp.now)
      m item inp (item.value = expectedValue ∧ m.stores newValue inp) := by
  have hpos : item.expiryTime > 0 := UInt32.pos_iff_ne_zero.mpr hexpiry
  unfold compareAndSwapPlan
  by_cases hvalue : item.value = expectedValue
  · have hbne : (item.value != expectedValue) = false := by simp [hvalue]
    simp only [hbne, Bool.false_eq_true, if_false, if_true, hpos]
    apply keepsRemaining_store
    exact ⟨And.right, fun hs => ⟨hvalue, hs⟩⟩
  · have hbne : (item.value != expectedValue) = true := by simp [hvalue]
    simp only [hbne, if_true]
    exact Or.inl ⟨fun hs => hvalue hs.1, rfl⟩

theorem KeepCall.run_cases (call : KeepCall)
    (hfind : find inp.findClock (some item) = some item) (hexpiry : item.expiryTime ≠ 0)
    (happlies : call.Applies item inp) :
    (¬ call.Stores m item inp ∧ call.run m (some item) inp = some item) ∨
    (call.Stores m item inp ∧ ∃ value, call.run m (some item) inp
      = some ⟨value, expiryFor inp.creationTime (remaining item inp.now)⟩) := by
  by_cases hready : m.ready = true
  case neg =>
      -- nothing is stored before the cache is there
      refine Or.inl ⟨?_, ?_⟩
      · intro hstores
        cases call
        case compareAndSwap => exact hready hstores.2.1
        all_goals
          obtain ⟨_, _, hs⟩ := hstores
          exact hready hs.1
      · cases call <;>
          simp [run, CacheManager.increment, CacheManager.decrement, CacheManager.atomicAddValue,
            CacheManager.compareAndSwap, CacheManager.incr, CacheManager.readModifyWrite, hready]
  cases call with
  | increment delta =>
      simp only [run, CacheManager.increment, CacheManager.atomicAddValue,
        CacheManager.readModifyWrite_of_ready hready, hfind]
      exact keepsRemaining_atomicAddPlan hexpiry (orOne delta)
  | decrement delta =>
      simp only [run, CacheManager.decrement, CacheManager.atomicAddValue,
        CacheManager.readModifyWrite_of_ready hready, hfind]
      exact keepsRemaining_atomicAddPlan hexpiry (-orOne delta)
  | compareAndSwap expectedValue newValue ttlSeconds =>
      simp only [run, CacheManager.compareAndSwap,
        CacheManager.readModifyWrite_of_ready hready, hfind]
      exact keepsRemaining_compareAndSwapPlan hexpiry expectedValue newValue ttlSeconds
  | incr delta ttlSeconds =>
      simp only [run, CacheManager.incr, CacheManager.readModifyWrite_of_ready hready, hfind]
      exact keepsRemaining_incrPlan hexpiry happlies (orOne delta) ttlSeconds

/-- **The round trip through the remaining time.** -/
theorem expiryFor_remaining_eq_iff (hexpiry : item.expiryTime ≠ 0)
    (hclock : inp.now ≤ inp.creationTime) :
    expiryFor inp.creationTime (remaining item inp.now) = item.expiryTime ↔
      inp.now < item.expiryTime ∧ inp.creationTime = inp.now := by
  unfold expiryFor remaining
  by_cases hlive : inp.now < item.expiryTime
  · have hsub := UInt32.toNat_sub_of_le item.expiryTime inp.now (UInt32.le_of_lt hlive)
    have hlt := UInt32.lt_iff_toNat_lt.mp hlive
    have hle := UInt32.le_iff_toNat_le.mp hclock
    have hne : ¬ (item.expiryTime - inp.now == 0) = true := by
      rw [beq_iff_eq, ← UInt32.toNat_inj, hsub]
      simp only [UInt32.toNat_zero]
      omega
    rw [if_pos hlive, if_neg hne, ← UInt32.toNat_inj, ← UInt32.toNat_inj, UInt32.toNat_add, hsub]
    have h₁ := item.expiryTime.toNat_lt
    have h₂ := inp.creationTime.toNat_lt
    constructor
    · intro h
      exact ⟨hlive, by omega⟩
    · rintro ⟨_, h⟩
      omega
  · -- the remaining time is zero, and zero is no expiry at all
    rw [if_neg hlive]
    constructor
    · intro h
      exact absurd h.symm hexpiry
    · exact fun h => absurd h.1 hlive

end Call

/-! ## Runs -/

/-- The slot and the last clock reading. -/
structure KeepState where
  slot : Option Item
  clock : UInt32
  deriving DecidableEq, Repr

/-- The expiry time of the item in the slot. -/
def KeepState.expiryTime (s : KeepState) : Option UInt32 := s.slot.map Item.expiryTime

/-- One call, on an entry with an expiry that `find` still returns; no reading is
earlier than the last one before. -/
def keepStep (m : CacheManager) (s : KeepState) (l : KeepCall × Inputs) : Option KeepState :=
  match find l.2.findClock s.slot with
  | none => none
  | some item =>
      if item.expiryTime ≠ 0 ∧ l.1.Applies item l.2 ∧ s.clock ≤ l.2.findClock.currentTime ∧
          l.2.findClock.currentTime ≤ l.2.now ∧ l.2.now ≤ l.2.creationTime then
        some ⟨l.1.run m s.slot l.2, l.2.creationTime⟩
      else none

/-- A call that stores nothing, or whose first reading is before the expiry and
whose second falls into the same second. -/
def Steady (m : CacheManager) (s : KeepState) (l : KeepCall × Inputs) : Prop :=
  ∀ item, s.slot = some item → l.1.Stores m item l.2 →
    l.2.now < item.expiryTime ∧ l.2.creationTime = l.2.now

section Runs

variable {m : CacheManager} {s t : KeepState} {l : KeepCall × Inputs}

theorem keepStep_eq_some (h : keepStep m s l = some t) :
    ∃ item, s.slot = some item ∧ find l.2.findClock (some item) = some item ∧
      item.expiryTime ≠ 0 ∧ l.1.Applies item l.2 ∧ l.2.now ≤ l.2.creationTime ∧
      t = ⟨l.1.run m (some item) l.2, l.2.creationTime⟩ := by
  unfold keepStep at h
  rcases hfind : find l.2.findClock s.slot with _ | item
  · rw [hfind] at h
    exact absurd h (by simp)
  · rw [hfind] at h
    have hslot := (find_eq_some_iff.mp hfind).1
    rw [hslot] at hfind h
    simp only at h
    split_ifs at h with hguard
    obtain ⟨hexpiry, happlies, _, _, hclock⟩ := hguard
    injection h with h
    exact ⟨item, hslot, hfind, hexpiry, happlies, hclock, h.symm⟩

theorem keepStep_expiryTime_iff (h : keepStep m s l = some t) :
    t.slot.isSome ∧ (t.expiryTime = s.expiryTime ↔ Steady m s l) := by
  obtain ⟨item, hslot, hfind, hexpiry, happlies, hclock, rfl⟩ := keepStep_eq_some h
  unfold KeepState.expiryTime Steady
  rw [hslot]
  rcases l.1.run_cases hfind hexpiry happlies with ⟨hnot, hrun⟩ | ⟨hstores, value, hrun⟩
  · rw [hrun]
    refine ⟨rfl, fun _ => ?_, fun _ => rfl⟩
    intro other hother hs
    injection hother with hother
    exact absurd (hother ▸ hs) hnot
  · rw [hrun]
    refine ⟨rfl, ?_⟩
    simp only [Option.map_some, Option.some.injEq]
    rw [expiryFor_remaining_eq_iff hexpiry hclock]
    constructor
    · rintro hsteady other rfl _
      exact hsteady
    · exact fun hsteady => hsteady item rfl hstores

end Runs

/-- **Which runs keep the expiry.** In a run of calls with non-decreasing
readings, every state has the expiry of the first one if and only if every call
of the run is steady. -/
theorem expiry_kept_iff (m : CacheManager) (s u : KeepState)
    (ls : List (KeepCall × Inputs)) (hrun : exec (keepStep m) s ls = some u) :
    (∀ pre t, pre <+: ls → exec (keepStep m) s pre = some t → t.expiryTime = s.expiryTime) ↔
      Along (keepStep m) (Steady m) s ls := by
  induction ls generalizing s with
  | nil =>
      refine ⟨fun _ => trivial, fun _ pre t hpre ht => ?_⟩
      rw [List.prefix_nil.mp hpre] at ht
      injection ht with ht
      rw [ht]
  | cons l ls ih =>
      obtain ⟨t, ht, hu⟩ := exec_cons_eq_some.mp hrun
      obtain ⟨-, hsteady⟩ := keepStep_expiryTime_iff ht
      constructor
      · intro hkept
        -- The first step is a prefix of the run, and the rest is a run from there.
        have htkept : t.expiryTime = s.expiryTime := hkept [l] t ⟨ls, rfl⟩ (by simp [exec, ht])
        refine ⟨hsteady.mp htkept, fun t' ht' => ?_⟩
        rw [ht, Option.some.injEq] at ht'
        subst ht'
        refine (ih t hu).mp fun pre v hpre hv => ?_
        rw [htkept]
        exact hkept (l :: pre) v (List.cons_prefix_cons.mpr ⟨rfl, hpre⟩)
          (exec_cons_eq_some.mpr ⟨t, ht, hv⟩)
      · rintro ⟨hl, hrest⟩ pre v hpre hv
        rcases pre with _ | ⟨l', pre⟩
        · injection hv with hv
          rw [hv]
        · obtain ⟨rfl, hpre'⟩ := List.cons_prefix_cons.mp hpre
          obtain ⟨t', ht', hv⟩ := exec_cons_eq_some.mp hv
          rw [ht, Option.some.injEq] at ht'
          subst ht'
          rw [← hsteady.mpr hl]
          exact (ih t hu).mpr (hrest t ht) pre v hpre' hv

/-- Two increments within the second 1000 keep an expiry at 2000. -/
theorem expiry_kept_two_increments :
    exec (keepStep { ready := true }) ⟨some ⟨[53], 2000⟩, 999⟩
        [(.increment 1, .within 1000), (.increment 1, .within 1000)]
      = some ⟨some ⟨[55], 2000⟩, 1000⟩ ∧
    ∀ pre t, pre <+: [(KeepCall.increment 1, Inputs.within 1000),
        (KeepCall.increment 1, Inputs.within 1000)] →
      exec (keepStep { ready := true }) ⟨some ⟨[53], 2000⟩, 999⟩ pre = some t →
      t.expiryTime = some 2000 := by
  refine ⟨by decide, ?_⟩
  refine (expiry_kept_iff { ready := true } ⟨some ⟨[53], 2000⟩, 999⟩ ⟨some ⟨[55], 2000⟩, 1000⟩ _
    (by decide)).mpr ⟨?_, fun t ht => ⟨?_, fun _ _ => trivial⟩⟩
  · rintro item ⟨⟩ _
    decide
  · rintro item hitem _
    have hafter : keepStep { ready := true } ⟨some ⟨[53], 2000⟩, 999⟩
        (.increment 1, Inputs.within 1000) = some ⟨some ⟨[54], 2000⟩, 1000⟩ := by decide
    rw [hafter, Option.some.injEq] at ht
    subst ht
    injection hitem with hitem
    subst hitem
    decide

/-- Two calls that are not steady. An increment in the second the entry expires
turns it into one that never does; an increment whose `allocate` reads the clock
a second later than the method itself moves the expiry by that second. -/
theorem increment_moves_expiry :
    (∃ t, keepStep { ready := true } ⟨some ⟨[53], 1000⟩, 1000⟩ (.increment 1, .within 1000)
      = some t ∧ t.expiryTime = some 0) ∧
    (∃ t, keepStep { ready := true } ⟨some ⟨[53], 2000⟩, 1000⟩
      (.increment 1, { Inputs.within 1000 with creationTime := 1001 }) = some t ∧
        t.expiryTime = some 2001) :=
  ⟨⟨⟨some ⟨[54], 0⟩, 1000⟩, by decide, by decide⟩, ⟨⟨some ⟨[54], 2001⟩, 1001⟩, by decide, by decide⟩⟩

end CacheLib.Server
