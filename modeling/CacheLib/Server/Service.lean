/-
The gRPC handlers that take a `ttl_seconds` (`standalone_server/
CacheServiceImpl.cc`) and the lifetime an accepted request gets.

A client's `ttl_seconds` is a signed 64-bit number. On its way to the stored
expiry it is narrowed to 32 bits, added to the creation time in 32 bits, and kept
in a field in which zero means "never". Nothing on the way checks that it fits.
-/
import CacheLib.Server.CacheManager

set_option autoImplicit false

namespace CacheLib.Server

open Decimal CacheManager

/-! ## The handlers -/

inductive StatusCode where
  | OK
  | UNAVAILABLE
  | INVALID_ARGUMENT
  | INTERNAL
  deriving DecidableEq, Repr

structure Status where
  code : StatusCode := .OK
  message : String := ""
  deriving DecidableEq, Repr

structure SetResponse where
  success : Bool := false
  message : String := ""
  size_bytes : ℕ := 0
  deriving DecidableEq, Repr

structure SetNXResponse where
  was_set : Bool := false
  message : String := ""
  existing_value : Bytes := []
  deriving DecidableEq, Repr

structure IncrResponse where
  value : Int64 := 0
  ttl_set : Bool := false
  deriving DecidableEq, Repr

structure TouchResponse where
  success : Bool := false
  message : String := ""
  deriving DecidableEq, Repr

/-- The narrowing every handler does: a `ttl_seconds` that is not positive is no
ttl, a positive one is cast to `uint32_t`. -/
def ttlSecondsOf (ttl_seconds : Int64) : UInt32 :=
  if ttl_seconds > 0 then ttl_seconds.toUInt64.toUInt32 else 0

namespace CacheServiceImpl

/-- The two checks every handler starts with; `reject` is the response a handler
leaves beside the status. -/
def checked {ρ : Type} (m : CacheManager) (slot : Option Item) (key : Bytes)
    (reject : String → ρ) (body : Option Item × ρ × Status) : Option Item × ρ × Status :=
  if !m.ready then
    (slot, reject "Cache not initialized", ⟨.UNAVAILABLE, "Cache not initialized"⟩)
  else if key.isEmpty then
    (slot, reject "Key cannot be empty", ⟨.INVALID_ARGUMENT, "Key cannot be empty"⟩)
  else body

def Set (m : CacheManager) (slot : Option Item) (key value : Bytes) (ttl_seconds : Int64)
    (inp : Inputs) : Option Item × SetResponse × Status :=
  checked m slot key (fun message => { message }) <|
    match m.set slot value (ttlSecondsOf ttl_seconds) inp with
    | (slot', true) =>
        (slot', { success := true, message := "OK", size_bytes := value.length }, {})
    | (slot', false) => (slot', { message := "Failed to set value" }, {})

def SetNX (m : CacheManager) (slot : Option Item) (key value : Bytes) (ttl_seconds : Int64)
    (inp : Inputs) : Option Item × SetNXResponse × Status :=
  checked m slot key (fun message => { message }) <|
    let out := m.setNX slot value (ttlSecondsOf ttl_seconds) inp
    if out.2.wasSet then (out.1, { was_set := true, message := "Key set successfully" }, {})
    else
      (out.1, { message := "Key already exists", existing_value := out.2.existingValue }, {})

def Incr (m : CacheManager) (slot : Option Item) (key : Bytes) (delta ttl_seconds : Int64)
    (inp : Inputs) : Option Item × IncrResponse × Status :=
  checked m slot key (fun _ => {}) <|
    let out := m.incr slot (orOne delta) (ttlSecondsOf ttl_seconds) inp
    if !out.2.success then
      (out.1, {}, ⟨.INTERNAL, if out.2.message.isEmpty then "Incr failed" else out.2.message⟩)
    else (out.1, { value := out.2.value, ttl_set := out.2.ttlSet }, {})

def Touch (m : CacheManager) (slot : Option Item) (key : Bytes) (ttl_seconds : Int64)
    (inp : Inputs) : Option Item × TouchResponse × Status :=
  checked m slot key (fun message => { message }) <|
    let out := m.touch slot (ttlSecondsOf ttl_seconds) inp
    (out.1, { success := out.2.success, message := out.2.message }, {})

end CacheServiceImpl

/-- A request that carries a `ttl_seconds`. -/
inductive TtlRequest where
  | set (value : Bytes)
  | setNX (value : Bytes)
  | incr (delta : Int64)
  | touch
  deriving DecidableEq, Repr

/-- The slot a request leaves and whether the ttl was accepted, as the response
says; for `Incr` that is `ttl_set`, the key being new. -/
def TtlRequest.handle (m : CacheManager) (request : TtlRequest) (key : Bytes)
    (ttl_seconds : Int64) (slot : Option Item) (inp : Inputs) : Option Item × Bool :=
  match request with
  | .set value =>
      let out := CacheServiceImpl.Set m slot key value ttl_seconds inp
      (out.1, out.2.1.success)
  | .setNX value =>
      let out := CacheServiceImpl.SetNX m slot key value ttl_seconds inp
      (out.1, out.2.1.was_set)
  | .incr delta =>
      let out := CacheServiceImpl.Incr m slot key delta ttl_seconds inp
      (out.1, out.2.1.ttl_set)
  | .touch =>
      let out := CacheServiceImpl.Touch m slot key ttl_seconds inp
      (out.1, out.2.1.success)

/-! ## An accepted request stamps the narrowed ttl -/

variable {ttl_seconds : Int64} {ttlSeconds : UInt32}

section Accepted

variable {m : CacheManager} {slot : Option Item} {inp : Inputs}

/-- An accepted request has passed the two checks. -/
theorem CacheServiceImpl.checked_of_accepted {ρ : Type} {key : Bytes} {reject : String → ρ}
    {body : Option Item × ρ × Status} (accepted : ρ → Bool)
    (hreject : ∀ message, accepted (reject message) = false)
    (h : accepted (checked m slot key reject body).2.1 = true) :
    m.ready = true ∧ checked m slot key reject body = body := by
  unfold checked at h ⊢
  split_ifs at h ⊢ with hready hkey
  · exact absurd h (by simp [hreject])
  · exact absurd h (by simp [hreject])
  · exact ⟨by simpa using hready, rfl⟩

/-- A store plan whose reply is accepted has stored, if a failed one is not. -/
theorem Plan.run_store_accepted {ρ : Type} {value : Bytes}
    {stored failed : ρ} (accepted : ρ → Bool) (hfailed : accepted failed = false)
    (h : accepted ((Plan.store value ttlSeconds stored failed).run m slot inp).2 = true) :
    ((Plan.store value ttlSeconds stored failed).run m slot inp).1
      = some ⟨value, expiryFor inp.creationTime ttlSeconds⟩ := by
  by_cases hs : m.stores value inp
  · rw [Plan.run_store_of_stores hs]
  · rw [Plan.run_store_of_not_stores hs, hfailed] at h
    exact absurd h (by simp)

theorem setNX_accepted {value : Bytes} (hready : m.ready = true)
    (h : (m.setNX slot value ttlSeconds inp).2.wasSet = true) :
    (m.setNX slot value ttlSeconds inp).1
      = some ⟨value, expiryFor inp.creationTime ttlSeconds⟩ := by
  unfold setNX at h ⊢
  rw [readModifyWrite_of_ready hready] at h ⊢
  rcases hfind : find inp.findClock slot with _ | item
  · rw [hfind] at h
    exact Plan.run_store_accepted SetNXResult.wasSet rfl h
  · rw [hfind] at h
    exact absurd h (by simp [setNXPlan])

theorem touch_accepted (hready : m.ready = true)
    (h : (m.touch slot ttlSeconds inp).2.success = true) :
    ∃ value, (m.touch slot ttlSeconds inp).1
      = some ⟨value, expiryFor inp.creationTime ttlSeconds⟩ := by
  unfold touch at h ⊢
  rw [readModifyWrite_of_ready hready] at h ⊢
  rcases hfind : find inp.findClock slot with _ | item
  · rw [hfind] at h
    exact absurd h (by simp [touchPlan])
  · rw [hfind] at h
    exact ⟨item.value, Plan.run_store_accepted TouchResult.success rfl h⟩

/-- `incr` reports `ttlSet` only where it took the key for new. -/
theorem incr_accepted {delta : Int64} (hready : m.ready = true)
    (h : (m.incr slot delta ttlSeconds inp).2.ttlSet = true) :
    ∃ value, (m.incr slot delta ttlSeconds inp).1
      = some ⟨value, expiryFor inp.creationTime ttlSeconds⟩ := by
  unfold incr at h ⊢
  rw [readModifyWrite_of_ready hready] at h ⊢
  -- An increment of a key that was there never reports the ttl as set, stored or not.
  have hold : ∀ base ttl, (((incrStore base (orOne delta) ttl false).run m slot inp).2).ttlSet
      = false := by
    intro base ttl
    unfold incrStore
    by_cases hs : m.stores (toDecimal (base + orOne delta).toInt) inp
    · rw [Plan.run_store_of_stores hs]
    · rw [Plan.run_store_of_not_stores hs]
  have hnew : ((incrStore 0 (orOne delta) ttlSeconds true).run m slot inp).2.ttlSet = true →
      ∃ value, ((incrStore 0 (orOne delta) ttlSeconds true).run m slot inp).1
        = some ⟨value, expiryFor inp.creationTime ttlSeconds⟩ := fun h =>
    ⟨_, Plan.run_store_accepted IncrResult.ttlSet rfl h⟩
  rcases hfind : find inp.findClock slot with _ | item
  · rw [hfind] at h
    exact hnew h
  · rw [hfind] at h
    -- An item `find` still returns may be expired by the second reading of the clock.
    by_cases hlive : (item.expiryTime == 0 || decide (item.expiryTime > inp.now)) = true
    · simp only [incrPlan, hlive, if_true] at h
      rcases hparse : parseInt64 item.value with e | n
      · simp [hparse] at h
      · simp only [hparse] at h
        exact absurd h (by simp [hold])
    · simp only [incrPlan, hlive] at h ⊢
      exact hnew h

/-- **An accepted request has stored an item whose expiry is stamped with the
narrowed ttl.** -/
theorem TtlRequest.handle_accepted (request : TtlRequest) {key : Bytes}
    (h : (request.handle m key ttl_seconds slot inp).2 = true) :
    m.ready = true ∧ ∃ value, (request.handle m key ttl_seconds slot inp).1
      = some ⟨value, expiryFor inp.creationTime (ttlSecondsOf ttl_seconds)⟩ := by
  cases request with
  | set value =>
      simp only [handle, CacheServiceImpl.Set] at h ⊢
      obtain ⟨hready, hbody⟩ :=
        CacheServiceImpl.checked_of_accepted SetResponse.success (fun _ => rfl) h
      rw [hbody] at h ⊢
      refine ⟨hready, value, ?_⟩
      by_cases hs : m.stores value inp
      · simp only [set_of_stores hs]
      · simp only [set_of_not_stores hs] at h
        exact absurd h (by simp)
  | setNX value =>
      simp only [handle, CacheServiceImpl.SetNX] at h ⊢
      obtain ⟨hready, hbody⟩ :=
        CacheServiceImpl.checked_of_accepted SetNXResponse.was_set (fun _ => rfl) h
      rw [hbody] at h ⊢
      refine ⟨hready, value, ?_⟩
      split_ifs at h ⊢ with hset
      exact setNX_accepted hready hset
  | incr delta =>
      simp only [handle, CacheServiceImpl.Incr] at h ⊢
      obtain ⟨hready, hbody⟩ :=
        CacheServiceImpl.checked_of_accepted IncrResponse.ttl_set (fun _ => rfl) h
      rw [hbody] at h ⊢
      refine ⟨hready, ?_⟩
      split_ifs at h ⊢ with hfailed
      exact incr_accepted hready h
  | touch =>
      simp only [handle, CacheServiceImpl.Touch] at h ⊢
      obtain ⟨hready, hbody⟩ :=
        CacheServiceImpl.checked_of_accepted TouchResponse.success (fun _ => rfl) h
      rw [hbody] at h ⊢
      exact ⟨hready, touch_accepted hready h⟩

end Accepted

/-! ## The lifetime -/

/-- What a client that asks for `ttl_seconds` at `creationTime` gets from the slot as
long as nobody changes it: without a positive ttl an item that never expires; with
one, an item that every `get` up to the moment of expiry finds. -/
structure HonoursTtl (m : CacheManager) (creationTime : UInt32) (ttl_seconds : Int64)
    (slot : Option Item) : Prop where
  no_expiry : ttl_seconds.toInt ≤ 0 → slot.map Item.expiryTime = some 0
  served : 0 < ttl_seconds.toInt → ∀ inp : Inputs,
    creationTime ≤ inp.findClock.currentTime → inp.findClock.currentTime ≤ inp.now →
    (inp.findClock.currentTime.toNat : ℤ) ≤ creationTime.toNat + ttl_seconds.toInt →
    (m.get slot inp).found = true ∧
    (creationTime.toNat + ttl_seconds.toInt) - inp.now.toNat
      ≤ (m.get slot inp).ttlRemaining.toInt ∧
    (m.get slot inp).ttlRemaining.toInt
      ≤ (creationTime.toNat + ttl_seconds.toInt) - inp.findClock.currentTime.toNat ∧
    m.getTTL slot inp = (m.get slot inp).ttlRemaining

theorem toInt_toInt64_of_uint32 (x : UInt32) : x.toUInt64.toInt64.toInt = x.toNat := by
  have hx := x.toNat_lt
  show x.toUInt64.toInt64.toBitVec.toInt = _
  rw [UInt64.toBitVec_toInt64, BitVec.toInt_eq_toNat_of_lt]
  · simp
  · simp only [UInt64.toNat_toBitVec, UInt32.toNat_toUInt64]
    omega

/-- A positive `ttl_seconds` arrives modulo `2 ^ 32`. -/
theorem toNat_ttlSecondsOf (h : 0 < ttl_seconds.toInt) :
    ((ttlSecondsOf ttl_seconds).toNat : ℤ) = ttl_seconds.toInt % 2 ^ 32 := by
  have hpos : ttl_seconds > 0 := Int64.lt_iff_toInt_lt.mpr (by simpa using h)
  have hlt := ttl_seconds.toInt_lt
  have hwide : (ttl_seconds.toUInt64.toNat : ℤ) = ttl_seconds.toInt := by
    have hbits : ttl_seconds.toInt = ttl_seconds.toBitVec.toInt := rfl
    have hnat : ttl_seconds.toUInt64.toNat = ttl_seconds.toBitVec.toNat := rfl
    rw [hnat]
    rw [hbits] at h hlt ⊢
    rw [BitVec.toInt_eq_toNat_cond] at h hlt ⊢
    split_ifs at h hlt ⊢ <;> omega
  unfold ttlSecondsOf
  rw [if_pos hpos, UInt64.toNat_toUInt32]
  omega

theorem ttlSecondsOf_of_nonpos (h : ttl_seconds.toInt ≤ 0) :
    ttlSecondsOf ttl_seconds = 0 := by
  unfold ttlSecondsOf
  rw [if_neg]
  intro hpos
  have : 0 < ttl_seconds.toInt := by simpa using Int64.lt_iff_toInt_lt.mp hpos
  omega

/-- The reported remaining time, in integers. -/
theorem toInt_ttlRemaining (item : Item) (now : UInt32) :
    (ttlRemaining item now).toInt =
      if item.expiryTime.toNat = 0 then (-1 : ℤ)
      else if now.toNat < item.expiryTime.toNat then (item.expiryTime.toNat : ℤ) - now.toNat
      else 0 := by
  unfold ttlRemaining
  simp only [beq_iff_eq, ← UInt32.toNat_inj, UInt32.toNat_zero, GT.gt, UInt32.lt_iff_toNat_lt]
  split_ifs with h0 hlt
  · rfl
  · rw [toInt_toInt64_of_uint32, UInt32.toNat_sub_of_le _ _ (UInt32.le_iff_toNat_le.mpr (by omega))]
    omega
  · rfl

/-- The expiry an accepted positive ttl leads to. -/
theorem toNat_expiryFor_ttlSecondsOf (creationTime : UInt32)
    (h : 0 < ttl_seconds.toInt) :
    ((expiryFor creationTime (ttlSecondsOf ttl_seconds)).toNat : ℤ) =
      if ttl_seconds.toInt % 2 ^ 32 = 0 then 0
      else (creationTime.toNat + ttl_seconds.toInt) % 2 ^ 32 := by
  have hnarrow := toNat_ttlSecondsOf h
  unfold expiryFor
  simp only [beq_iff_eq, ← UInt32.toNat_inj, UInt32.toNat_zero]
  split_ifs with h0 h1 h1
  · rfl
  · omega
  · omega
  · rw [UInt32.toNat_add]
    push_cast
    rw [hnarrow]
    omega

/-- What `get` and `getTTL` answer for an item that has not expired. -/
theorem get_of_live {m : CacheManager} (hready : m.ready = true) (item : Item) {inp : Inputs}
    (hlive : item.expiryTime.toNat = 0 ∨
      inp.findClock.currentTime.toNat ≤ item.expiryTime.toNat) :
    (m.get (some item) inp).found = true ∧
    (m.get (some item) inp).ttlRemaining = ttlRemaining item inp.now ∧
    m.getTTL (some item) inp = ttlRemaining item inp.now := by
  have hfind : find inp.findClock (some item) = some item := by
    refine find_eq_some_iff.mpr ⟨rfl, ?_⟩
    rintro ⟨hne, hlt⟩
    rw [ne_eq, ← UInt32.toNat_inj, UInt32.toNat_zero] at hne
    rw [UInt32.lt_iff_toNat_lt] at hlt
    omega
  unfold CacheManager.get CacheManager.getTTL
  rw [hready, hfind]
  exact ⟨rfl, rfl, rfl⟩

/-- The reported time of a `get` that found the item at all. -/
theorem get_ttlRemaining_of_found {m : CacheManager} {item : Item} {inp : Inputs}
    (h : (m.get (some item) inp).found = true) :
    (m.get (some item) inp).ttlRemaining = ttlRemaining item inp.now := by
  unfold CacheManager.get at h ⊢
  split_ifs at h ⊢ with hready
  rcases hfind : find inp.findClock (some item) with _ | other
  · rw [hfind] at h
    exact absurd h (by simp)
  · have := (find_eq_some_iff.mp hfind).1
    injection this with this
    rw [this]

/-- **When a ttl is honoured.** An accepted `Set`, `SetNX`, `Incr` on a new key or
`Touch` gives the lifetime asked for exactly if no expiry was asked for or the
moment of expiry fits in 32 bits. -/
theorem ttl_honoured_iff (m : CacheManager) (request : TtlRequest) (key : Bytes)
    (ttl_seconds : Int64) (slot : Option Item) (inp : Inputs)
    (haccepted : (request.handle m key ttl_seconds slot inp).2 = true) :
    HonoursTtl m inp.creationTime ttl_seconds (request.handle m key ttl_seconds slot inp).1 ↔
      ttl_seconds.toInt ≤ 0 ∨ inp.creationTime.toNat + ttl_seconds.toInt < 2 ^ 32 := by
  obtain ⟨hready, value, hslot⟩ := request.handle_accepted haccepted
  rw [hslot]
  rcases le_or_gt ttl_seconds.toInt 0 with hnonpos | hpos
  · -- no ttl: `allocate` stamps zero
    refine ⟨fun _ => Or.inl hnonpos, fun _ => ⟨fun _ => ?_, fun hpos => ?_⟩⟩
    · rw [ttlSecondsOf_of_nonpos hnonpos]
      rfl
    · omega
  have hexpiry := toNat_expiryFor_ttlSecondsOf inp.creationTime hpos
  generalize expiryFor inp.creationTime (ttlSecondsOf ttl_seconds) = expiryTime at hexpiry
  constructor
  · -- ask for the remaining time in the second of the request itself
    intro hhonours
    obtain ⟨hfound, hlower, _, _⟩ := hhonours.served hpos (.within inp.creationTime)
      (UInt32.le_refl _) (UInt32.le_refl _) (by show (inp.creationTime.toNat : ℤ) ≤ _; omega)
    rw [get_ttlRemaining_of_found hfound, toInt_ttlRemaining] at hlower
    simp only [Inputs.within] at hlower
    have := expiryTime.toNat_lt
    right
    split_ifs at hexpiry hlower <;> omega
  · rintro (hnonpos | hfits)
    · omega
    refine ⟨fun hnonpos => by omega, fun _ get hafter hreadings hbefore => ?_⟩
    rw [UInt32.le_iff_toNat_le] at hafter hreadings
    have hmoment : (expiryTime.toNat : ℤ) = inp.creationTime.toNat + ttl_seconds.toInt := by
      split_ifs at hexpiry <;> omega
    have hlive : expiryTime.toNat = 0 ∨ get.findClock.currentTime.toNat ≤ expiryTime.toNat := by
      right; omega
    obtain ⟨hfound, hget, hgetTTL⟩ := get_of_live hready ⟨value, expiryTime⟩ hlive
    refine ⟨hfound, ?_, ?_, by rw [hget, hgetTTL]⟩
    · rw [hget, toInt_ttlRemaining]
      simp only
      split_ifs <;> omega
    · rw [hget, toInt_ttlRemaining]
      simp only
      split_ifs <;> omega

/-- A `Set` with a ttl of a minute. -/
theorem ttl_honoured_minute :
    HonoursTtl { ready := true } 1700000000 60
      ((TtlRequest.set [118]).handle { ready := true } [107] 60 none (.within 1700000000)).1 :=
  (ttl_honoured_iff { ready := true } (.set [118]) [107] 60 none (.within 1700000000)
    (by decide)).mpr (Or.inr (by decide))

/-- A `Set` with a ttl of `2 ^ 32 + 1` seconds is accepted, and the item is gone
two seconds later. -/
theorem ttl_not_honoured :
    ((TtlRequest.set [118]).handle { ready := true } [107] 4294967297 none
      (.within 1700000000)).2 = true ∧
    ¬ HonoursTtl { ready := true } 1700000000 4294967297
      ((TtlRequest.set [118]).handle { ready := true } [107] 4294967297 none
        (.within 1700000000)).1 := by
  refine ⟨by decide, fun hhonours => ?_⟩
  have hfound := (hhonours.served (by decide) (.within 1700000002) (by decide) (by decide)
    (by decide)).1
  exact absurd hfound (by decide)

end CacheLib.Server
