/-
`CacheManager`, the layer of the standalone server between the gRPC handlers and
the cache (`standalone_server/CacheManager.cc`), on one key.

A method of the manager is a function from what the cache holds for the key to
what it leaves there and the result it returns. Everything it draws from outside is
in `Inputs`; two readings of the clock inside one call may differ.

The methods that take `atomicOpMutex_` share one shape: `find`, then a decision,
then at most one `set`. The decision is a `Plan`, a pure function of what `find`
returned and of the clock, so that the same definitions serve a call that runs
alone and one that is interrupted between its `find` and its `set`.
-/
import CacheLib.Lib.Decimal

set_option autoImplicit false

namespace CacheLib.Server

open Decimal

abbrev Bytes := List UInt8

/-! ## The underlying cache -/

/-- A cached item: `getMemory`/`getSize` and `getExpiryTime`. -/
structure Item where
  value : Bytes
  expiryTime : UInt32
  deriving DecidableEq, Repr

/-- The two times `util::isExpired` looks at: the reading this thread made last
and the reading it makes now. The clock does not go back. -/
structure ExpiryClock where
  staleTime : UInt32
  currentTime : UInt32
  stale_le : staleTime ≤ currentTime

/-- `util::isExpired`: strict, so an item is still served in the second it
expires. -/
def isExpired (clock : ExpiryClock) (expiryTime : UInt32) : Bool :=
  if expiryTime == 0 then false
  else if expiryTime < clock.staleTime then true
  else expiryTime < clock.currentTime

/-- `CacheAllocator::find`: an expired item is a miss. -/
def find (clock : ExpiryClock) : Option Item → Option Item
  | none => none
  | some item => if isExpired clock item.expiryTime then none else some item

/-- What one call draws from outside. -/
structure Inputs where
  /-- the clock as the call's `find` sees it -/
  findClock : ExpiryClock
  /-- the method's own `system_clock::now()` -/
  now : UInt32
  /-- the reading `allocate` makes -/
  creationTime : UInt32
  /-- whether `allocate` returned a handle (a null handle and an exception are
  the same to `set`) -/
  allocated : Bool

/-- A call all of whose readings fall into one second and that finds memory. -/
def Inputs.within (second : UInt32) : Inputs :=
  { findClock := ⟨second, second, UInt32.le_refl second⟩, now := second,
    creationTime := second, allocated := true }

/-- The expiry time `CacheAllocator::allocate` stamps; the sum is a `uint32_t`. -/
def expiryFor (creationTime ttlSecs : UInt32) : UInt32 :=
  if ttlSecs == 0 then 0 else creationTime + ttlSecs

/-- `CacheAllocator::allocate`, down to the expiry time of the new item. -/
def allocate (inp : Inputs) (ttlSecs : UInt32) : Option UInt32 :=
  if inp.allocated then some (expiryFor inp.creationTime ttlSecs) else none

/-! ## The results -/

structure GetResult where
  found : Bool := false
  value : Bytes := []
  ttlRemaining : Int64 := 0
  deriving DecidableEq, Repr

structure SetNXResult where
  wasSet : Bool := false
  existingValue : Bytes := []
  deriving DecidableEq, Repr

structure IncrDecrResult where
  success : Bool := false
  newValue : Int64 := 0
  message : String := ""
  deriving DecidableEq, Repr

structure IncrResult where
  success : Bool := false
  value : Int64 := 0
  ttlSet : Bool := false
  message : String := ""
  deriving DecidableEq, Repr

structure CASResult where
  success : Bool := false
  actualValue : Bytes := []
  deriving DecidableEq, Repr

structure TouchResult where
  success : Bool := false
  message : String := ""
  deriving DecidableEq, Repr

/-! ## The plain methods -/

/-- The manager: whether `cache_` is there and the configured size limit. -/
structure CacheManager where
  ready : Bool
  maxItemSize : ℕ := 4 * 1024 * 1024

variable (m : CacheManager) (slot : Option Item)

namespace CacheManager

/-- The remaining seconds `get` and `getTTL` report for an item that `find`
returned. -/
def ttlRemaining (item : Item) (now : UInt32) : Int64 :=
  if item.expiryTime == 0 then -1
  else if item.expiryTime > now then (item.expiryTime - now).toUInt64.toInt64
  else 0

def get (inp : Inputs) : GetResult :=
  if !m.ready then {}
  else match find inp.findClock slot with
    | none => {}
    | some item =>
        { found := true, value := item.value, ttlRemaining := ttlRemaining item inp.now }

def getTTL (inp : Inputs) : Int64 :=
  if !m.ready then -2
  else match find inp.findClock slot with
    | none => -2
    | some item => ttlRemaining item inp.now

def set (value : Bytes) (ttlSeconds : UInt32)
    (inp : Inputs) : Option Item × Bool :=
  if !m.ready then (slot, false)
  else if value.length > m.maxItemSize then (slot, false)
  else match allocate inp ttlSeconds with
    | none => (slot, false)
    | some expiryTime => (some ⟨value, expiryTime⟩, true)

/-- `CacheManager::remove`; the cache's own `remove` does not look at the expiry. -/
def remove : Option Item × Bool :=
  if !m.ready then (slot, false) else (none, slot.isSome)

end CacheManager

/-! ## The methods under the mutex -/

/-- What a method has decided once `find` has answered: to reply, or to call
`set` and reply one way or the other. -/
inductive Plan (ρ : Type) where
  | reply (result : ρ)
  | store (value : Bytes) (ttlSeconds : UInt32) (stored failed : ρ)
  deriving DecidableEq

/-- Carrying a plan out. -/
def Plan.run {ρ : Type} (m : CacheManager) (slot : Option Item) (inp : Inputs) :
    Plan ρ → Option Item × ρ
  | .reply result => (slot, result)
  | .store value ttlSeconds stored failed =>
      match m.set slot value ttlSeconds inp with
      | (slot', true) => (slot', stored)
      | (slot', false) => (slot', failed)

/-- `std::from_chars` into an `int64_t`, with only `ec` looked at: bytes after
the number are not an error. -/
def parseInt64 (s : Bytes) : Except Errc Int64 :=
  (fromChars Int64.minValue.toInt Int64.maxValue.toInt s).map fun p => Int64.ofInt p.1

/-- `setNX` after its `find` -/
def setNXPlan (value : Bytes) (ttlSeconds : UInt32) : Option Item → Plan SetNXResult
  | some item => .reply { wasSet := false, existingValue := item.value }
  | none => .store value ttlSeconds { wasSet := true } {}

/-- The store at the end of `atomicAddValue`. The sum is an `int64_t`; where it
leaves the range the C++ standard says nothing and the machines it runs on wrap. -/
def addStore (currentValue delta : Int64) (existingTtl : UInt32) : Plan IncrDecrResult :=
  .store (toDecimal (currentValue + delta).toInt) existingTtl
    { success := true, newValue := currentValue + delta }
    { message := "Failed to store new value" }

/-- `atomicAddValue` after its `find` -/
def atomicAddPlan (delta : Int64) (ttlSeconds : UInt32) (found : Option Item) (now : UInt32) :
    Plan IncrDecrResult :=
  match found with
  | none => addStore 0 delta ttlSeconds
  | some item =>
      match parseInt64 item.value with
      | .error _ => .reply { message := "Value is not a valid integer" }
      | .ok currentValue =>
          -- an expiry that is not later than `now` leaves `existingTtl` at `ttlSeconds`
          let existingTtl :=
            if ttlSeconds == 0 && item.expiryTime > 0 && item.expiryTime > now
            then item.expiryTime - now else ttlSeconds
          addStore currentValue delta existingTtl

/-- `if (delta == 0) delta = 1;` -/
def orOne (delta : Int64) : Int64 := if delta == 0 then 1 else delta

/-- The store at the end of `incr`. -/
def incrStore (baseValue delta : Int64) (writeTtl : UInt32) (createdNew : Bool) :
    Plan IncrResult :=
  .store (toDecimal (baseValue + delta).toInt) writeTtl
    { success := true, value := baseValue + delta, ttlSet := createdNew }
    { message := "Failed to store new value" }

/-- `incr` after its `find` -/
def incrPlan (delta : Int64) (ttlSeconds : UInt32) (found : Option Item) (now : UInt32) :
    Plan IncrResult :=
  match found with
  | none => incrStore 0 delta ttlSeconds true
  | some item =>
      let stillLive := item.expiryTime == 0 || item.expiryTime > now
      if stillLive then
        match parseInt64 item.value with
        | .error _ => .reply { message := "Value is not a valid integer" }
        | .ok baseValue =>
            let writeTtl := if item.expiryTime == 0 then 0 else item.expiryTime - now
            incrStore baseValue delta writeTtl false
      else
        -- a logically expired entry is a miss: the window is stamped anew
        incrStore 0 delta ttlSeconds true

/-- `compareAndSwap` after its `find` -/
def compareAndSwapPlan (expectedValue newValue : Bytes) (ttlSeconds : UInt32) (keepTtl : Bool)
    (found : Option Item) (now : UInt32) : Plan CASResult :=
  match found with
  | none => .reply { success := false }
  | some item =>
      if item.value != expectedValue then .reply { success := false, actualValue := item.value }
      else
        let effectiveTtl :=
          if keepTtl then
            if item.expiryTime > 0 then
              if item.expiryTime > now then item.expiryTime - now else 0
            else 0
          else ttlSeconds
        .store newValue effectiveTtl { success := true, actualValue := newValue }
          { success := false, actualValue := item.value }

/-- `touch` after its `find` -/
def touchPlan (ttlSeconds : UInt32) : Option Item → Plan TouchResult
  | none => .reply { message := "Key not found" }
  | some item =>
      .store item.value ttlSeconds { success := true, message := "TTL updated" }
        { message := "Failed to update TTL" }

namespace CacheManager

/-- A method under the mutex that nothing interrupts: `find`, decide, carry out. -/
def readModifyWrite {ρ : Type} (m : CacheManager) (slot : Option Item) (inp : Inputs)
    (notInitialized : ρ) (plan : Option Item → UInt32 → Plan ρ) : Option Item × ρ :=
  if !m.ready then (slot, notInitialized)
  else (plan (find inp.findClock slot) inp.now).run m slot inp

def setNX (value : Bytes) (ttlSeconds : UInt32)
    (inp : Inputs) : Option Item × SetNXResult :=
  m.readModifyWrite slot inp {} fun found _ => setNXPlan value ttlSeconds found

def atomicAddValue (delta : Int64) (ttlSeconds : UInt32)
    (inp : Inputs) : Option Item × IncrDecrResult :=
  m.readModifyWrite slot inp { message := "Cache not initialized" }
    (atomicAddPlan delta ttlSeconds)

def increment (delta : Int64) (ttlSeconds : UInt32)
    (inp : Inputs) : Option Item × IncrDecrResult :=
  m.atomicAddValue slot (orOne delta) ttlSeconds inp

/-- `CacheManager::decrement`; the negation is an `int64_t` too. -/
def decrement (delta : Int64) (ttlSeconds : UInt32)
    (inp : Inputs) : Option Item × IncrDecrResult :=
  m.atomicAddValue slot (-orOne delta) ttlSeconds inp

def incr (delta : Int64) (ttlSeconds : UInt32)
    (inp : Inputs) : Option Item × IncrResult :=
  m.readModifyWrite slot inp { message := "Cache not initialized" }
    (incrPlan (orOne delta) ttlSeconds)

def compareAndSwap (expectedValue newValue : Bytes)
    (ttlSeconds : UInt32) (keepTtl : Bool) (inp : Inputs) : Option Item × CASResult :=
  m.readModifyWrite slot inp {} (compareAndSwapPlan expectedValue newValue ttlSeconds keepTtl)

def touch (ttlSeconds : UInt32) (inp : Inputs) :
    Option Item × TouchResult :=
  m.readModifyWrite slot inp { message := "Cache not initialized" }
    fun found _ => touchPlan ttlSeconds found

end CacheManager

/-! ## What the pieces do -/

/-- With a clock that does not go back the stale reading never decides. -/
theorem isExpired_iff (clock : ExpiryClock) (expiryTime : UInt32) :
    isExpired clock expiryTime = true ↔ expiryTime ≠ 0 ∧ expiryTime < clock.currentTime := by
  unfold isExpired
  split_ifs with h0 hstale
  · simp only [beq_iff_eq] at h0
    simp [h0]
  · simp only [beq_iff_eq] at h0
    have := UInt32.lt_of_lt_of_le hstale clock.stale_le
    simp [h0, this]
  · simp only [beq_iff_eq] at h0
    simp [h0]

theorem find_eq_some_iff {clock : ExpiryClock} {slot : Option Item} {item : Item} :
    find clock slot = some item ↔
      slot = some item ∧ ¬ (item.expiryTime ≠ 0 ∧ item.expiryTime < clock.currentTime) := by
  rw [← isExpired_iff]
  rcases slot with _ | other
  · simp [find]
  · simp only [find]
    split_ifs with h
    · constructor
      · intro hc; exact absurd hc (by simp)
      · rintro ⟨heq, hlive⟩
        injection heq with heq
        exact absurd (heq ▸ h) hlive
    · constructor
      · intro heq
        injection heq with heq
        exact ⟨by rw [heq], heq ▸ h⟩
      · exact fun hc => hc.1

/-- `set` goes through: the manager is up, the value is not too large, `allocate`
found memory. -/
def CacheManager.stores (m : CacheManager) (value : Bytes) (inp : Inputs) : Prop :=
  m.ready = true ∧ value.length ≤ m.maxItemSize ∧ inp.allocated = true

instance (m : CacheManager) (value : Bytes) (inp : Inputs) : Decidable (m.stores value inp) :=
  inferInstanceAs (Decidable (_ ∧ _ ∧ _))

theorem CacheManager.set_of_stores {m : CacheManager} {value : Bytes} {inp : Inputs}
    (h : m.stores value inp) (slot : Option Item) (ttlSeconds : UInt32) :
    m.set slot value ttlSeconds inp
      = (some ⟨value, expiryFor inp.creationTime ttlSeconds⟩, true) := by
  obtain ⟨hready, hsize, halloc⟩ := h
  unfold set allocate
  rw [hready, halloc, if_neg (by simp), if_neg (by omega)]
  rfl

theorem CacheManager.set_of_not_stores {m : CacheManager} {value : Bytes} {inp : Inputs}
    (h : ¬ m.stores value inp) (slot : Option Item) (ttlSeconds : UInt32) :
    m.set slot value ttlSeconds inp = (slot, false) := by
  unfold set allocate
  split_ifs with hready hsize halloc
  · rfl
  · rfl
  · exact absurd ⟨by simpa using hready, by omega, halloc⟩ h
  · rfl

section Plans

variable {ρ : Type} {m : CacheManager} {inp : Inputs}

@[simp] theorem Plan.run_reply (slot : Option Item) (result : ρ) :
    (Plan.reply result).run m slot inp = (slot, result) := rfl

theorem Plan.run_store_of_stores {value : Bytes} (h : m.stores value inp) (slot : Option Item)
    (ttlSeconds : UInt32) (stored failed : ρ) :
    (Plan.store value ttlSeconds stored failed).run m slot inp
      = (some ⟨value, expiryFor inp.creationTime ttlSeconds⟩, stored) := by
  simp only [Plan.run, CacheManager.set_of_stores h]

theorem Plan.run_store_of_not_stores {value : Bytes} (h : ¬ m.stores value inp)
    (slot : Option Item) (ttlSeconds : UInt32) (stored failed : ρ) :
    (Plan.store value ttlSeconds stored failed).run m slot inp = (slot, failed) := by
  simp only [Plan.run, CacheManager.set_of_not_stores h]

theorem CacheManager.readModifyWrite_of_ready (hready : m.ready = true) (slot : Option Item)
    (notInitialized : ρ) (plan : Option Item → UInt32 → Plan ρ) :
    m.readModifyWrite slot inp notInitialized plan
      = (plan (find inp.findClock slot) inp.now).run m slot inp := by
  unfold readModifyWrite
  rw [hready]
  rfl

end Plans

end CacheLib.Server
