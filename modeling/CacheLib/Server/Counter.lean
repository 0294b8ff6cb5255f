/-
The counters of the standalone server: `increment`, `decrement` and `incr` over
arbitrary stored bytes and 64-bit deltas.

`CountsExactly` is what one call on a counter is for. The code does less. It looks
at the error code of `std::from_chars` and not at where the parser stopped, so
`12abc` counts as `12`; and it adds without a range check. Calls on a counter that
the server itself has stored lose none of their updates, whatever their order.
-/
import CacheLib.Server.Concurrent

set_option autoImplicit false

namespace CacheLib.Server

open Decimal

/-- The three counting methods. -/
inductive CountCall where
  | increment
  | decrement
  | incr
  deriving DecidableEq, Repr

namespace CountCall

/-- The slot a counting method leaves, whether it reports success, and the number
it reports. -/
def run (m : CacheManager) (call : CountCall) (slot : Option Item) (delta : Int64)
    (ttlSeconds : UInt32) (inp : Inputs) : Option Item × Bool × Int64 :=
  match call with
  | .increment =>
      let out := m.increment slot delta ttlSeconds inp
      (out.1, out.2.success, out.2.newValue)
  | .decrement =>
      let out := m.decrement slot delta ttlSeconds inp
      (out.1, out.2.success, out.2.newValue)
  | .incr =>
      let out := m.incr slot delta ttlSeconds inp
      (out.1, out.2.success, out.2.value)

/-- The value a counting method counts from: the one `find` returns, and for
`incr`, which treats an entry whose expiry has come as a miss, only a live one. -/
def seen (call : CountCall) (slot : Option Item) (inp : Inputs) : Option Bytes :=
  match call with
  | .increment | .decrement => (find inp.findClock slot).map Item.value
  | .incr =>
      ((find inp.findClock slot).filter fun item =>
        item.expiryTime == 0 || item.expiryTime > inp.now).map Item.value

/-- The mathematical result, a zero delta counting as one. -/
def result (call : CountCall) (delta : Int64) (base : ℤ) : ℤ :=
  match call with
  | .decrement => base - (orOne delta).toInt
  | .increment | .incr => base + (orOne delta).toInt

/-- The number the method adds to what it has parsed. -/
def addend (call : CountCall) (delta : Int64) : Int64 :=
  match call with
  | .decrement => -orOne delta
  | .increment | .incr => orOne delta

end CountCall

/-- `n` is a signed 64-bit integer. -/
def Fits (n : ℤ) : Prop := -2 ^ 63 ≤ n ∧ n < 2 ^ 63

/-- The integer to count from: zero without a value, otherwise the signed 64-bit
integer the whole value spells. -/
def CountsFrom (seen : Option Bytes) (base : ℤ) : Prop :=
  match seen with
  | none => base = 0
  | some s => IsNumeral s base ∧ Fits base

/-- What a counting call is for. -/
structure CountsExactly (m : CacheManager) (call : CountCall) (slot : Option Item) (delta : Int64)
    (ttlSeconds : UInt32) (inp : Inputs) : Prop where
  succeeds : ∀ base, CountsFrom (call.seen slot inp) base → Fits (call.result delta base) →
    (call.run m slot delta ttlSeconds inp).2.1 = true ∧
    (call.run m slot delta ttlSeconds inp).2.2.toInt = call.result delta base ∧
    (call.run m slot delta ttlSeconds inp).1.map Item.value
      = some (toDecimal (call.result delta base))
  fails : (¬ ∃ base, CountsFrom (call.seen slot inp) base ∧ Fits (call.result delta base)) →
    (call.run m slot delta ttlSeconds inp).2.1 = false ∧
    (call.run m slot delta ttlSeconds inp).1 = slot

/-- The inputs on which the shortcuts of the code do not show: a 64-bit numeral
at the start of the value is all of it, and the result it leads to is in range. -/
def Clean (seen : Option Bytes) (result : ℤ → ℤ) : Prop :=
  match seen with
  | none => Fits (result 0)
  | some s => ∀ n rest, LeadingNumeral s n rest → Fits n → rest = [] ∧ Fits (result n)

/-! ## 64-bit arithmetic -/

theorem fits_toInt (n : Int64) : Fits n.toInt := ⟨Int64.le_toInt n, Int64.toInt_lt n⟩

theorem bmod_of_fits {n : ℤ} (h : Fits n) : n.bmod (2 ^ 64) = n := by
  obtain ⟨hlo, hhi⟩ := h
  exact Int.bmod_eq_of_le (by omega) (by omega)

theorem toInt_ofInt_of_fits {n : ℤ} (h : Fits n) : (Int64.ofInt n).toInt = n := by
  rw [Int64.toInt_ofInt]
  exact bmod_of_fits h

/-- A counting method adds modulo `2 ^ 64`. -/
theorem CountCall.toInt_add_addend (call : CountCall) (n delta : Int64) :
    (n + call.addend delta).toInt = (call.result delta n.toInt).bmod (2 ^ 64) := by
  cases call
  case decrement =>
      show (n + -orOne delta).toInt = _
      rw [← Int64.sub_eq_add_neg]
      exact Int64.toInt_sub n (orOne delta)
  all_goals exact Int64.toInt_add n (orOne delta)

theorem fits_iff (n : ℤ) :
    Fits n ↔ Int64.minValue.toInt ≤ n ∧ n ≤ Int64.maxValue.toInt := by
  have hmin : Int64.minValue.toInt = -2 ^ 63 := by decide
  have hmax : Int64.maxValue.toInt = 2 ^ 63 - 1 := by decide
  unfold Fits
  rw [hmin, hmax]
  omega

variable {n : Int64} {s : Bytes}

theorem parseInt64_eq_ok (h : parseInt64 s = .ok n) :
    ∃ rest, LeadingNumeral s n.toInt rest := by
  unfold parseInt64 at h
  rcases hp : fromChars Int64.minValue.toInt Int64.maxValue.toInt s with e | ⟨k, rest⟩
  · rw [hp] at h
    exact absurd h (by simp [Except.map])
  · rw [hp] at h
    obtain ⟨hlead, hrange⟩ := fromChars_eq_ok_iff.mp hp
    injection h with h
    refine ⟨rest, ?_⟩
    rw [← h, toInt_ofInt_of_fits ((fits_iff k).mpr hrange)]
    exact hlead

theorem parseInt64_eq_error {e : Errc} (h : parseInt64 s = .error e) {n : ℤ}
    {rest : Bytes} (hlead : LeadingNumeral s n rest) : ¬ Fits n := by
  intro hfits
  have hok := fromChars_eq_ok_iff.mpr ⟨hlead, (fits_iff n).mp hfits⟩
  unfold parseInt64 at h
  rw [hok] at h
  exact absurd h (by simp [Except.map])

/-- A 64-bit integer prints in at most twenty bytes. -/
theorem length_toDecimal_toInt (n : Int64) : (toDecimal n.toInt).length ≤ 20 := by
  obtain ⟨hlo, hhi⟩ := fits_toInt n
  exact length_toDecimal_le (by norm_num) (by norm_num; omega)

/-! ## One call -/

section Call

variable {m : CacheManager} {slot : Option Item} {inp : Inputs}

/-- The call has a number to start from, the one the parser makes of the value. -/
def StartsAt (seen : Option Bytes) (n : Int64) : Prop :=
  match seen with
  | none => n = 0
  | some s => parseInt64 s = .ok n

/-- Where the parser reports an error the call fails and stores nothing. -/
theorem CountCall.run_of_parse_error (hready : m.ready = true) (call : CountCall) (delta : Int64)
    (ttlSeconds : UInt32) {e : Errc} (hseen : call.seen slot inp = some s)
    (hparse : parseInt64 s = .error e) :
    call.run m slot delta ttlSeconds inp = (slot, false, 0) := by
  cases call
  case incr =>
      obtain ⟨item, hitem, rfl⟩ := Option.map_eq_some_iff.mp hseen
      obtain ⟨hfind, hlive⟩ := Option.filter_eq_some_iff.mp hitem
      simp only [run, CacheManager.incr, CacheManager.readModifyWrite_of_ready hready, hfind,
        incrPlan, hlive, if_true, hparse, Plan.run_reply]
  all_goals
    obtain ⟨item, hfind, rfl⟩ := Option.map_eq_some_iff.mp hseen
    simp only [run, CacheManager.increment, CacheManager.decrement, CacheManager.atomicAddValue,
      CacheManager.readModifyWrite_of_ready hready, hfind, atomicAddPlan, hparse, Plan.run_reply]

/-- With a number to start from, `atomicAddValue` goes on to store the sum. -/
theorem atomicAddPlan_of_startsAt (delta : Int64) (ttlSeconds : UInt32) {found : Option Item}
    (now : UInt32) (hstart : StartsAt (found.map Item.value) n) :
    ∃ ttl, atomicAddPlan delta ttlSeconds found now = addStore n delta ttl := by
  rcases found with _ | item
  · have hn : n = 0 := hstart
    exact ⟨ttlSeconds, by rw [hn]; rfl⟩
  · have hparse : parseInt64 item.value = .ok n := hstart
    unfold atomicAddPlan
    simp only [hparse]
    exact ⟨_, rfl⟩

/-- With a number to start from, so does `incr`. -/
theorem incrPlan_of_startsAt (delta : Int64) (ttlSeconds : UInt32) {found : Option Item}
    (now : UInt32)
    (hstart : StartsAt ((found.filter fun item =>
      item.expiryTime == 0 || item.expiryTime > now).map Item.value) n) :
    ∃ ttl createdNew, incrPlan delta ttlSeconds found now = incrStore n delta ttl createdNew := by
  rcases found with _ | item
  · have hn : n = 0 := hstart
    exact ⟨ttlSeconds, true, by rw [hn]; rfl⟩
  · unfold incrPlan
    by_cases hlive : (item.expiryTime == 0 || decide (item.expiryTime > now)) = true
    · rw [Option.filter_some, if_pos hlive] at hstart
      have hparse : parseInt64 item.value = .ok n := hstart
      simp only [hlive, if_true, hparse]
      exact ⟨_, _, rfl⟩
    · -- the entry's expiry has come: counted from zero, as on a miss
      rw [Option.filter_some, if_neg hlive] at hstart
      have hn : n = 0 := hstart
      simp only [hlive, hn]
      exact ⟨_, _, rfl⟩

/-- **A call that has a number to start from succeeds.** -/
theorem CountCall.run_of_startsAt (hready : m.ready = true) (hroom : 20 ≤ m.maxItemSize)
    (halloc : inp.allocated = true) (call : CountCall) (delta : Int64) (ttlSeconds : UInt32)
    (hstart : StartsAt (call.seen slot inp) n) :
    ∃ expiryTime, call.run m slot delta ttlSeconds inp
      = (some ⟨toDecimal (n + call.addend delta).toInt, expiryTime⟩, true,
          n + call.addend delta) := by
  -- A 64-bit number has at most 20 characters, so the sum is stored whatever it is.
  have hstores : ∀ d : Int64, m.stores (toDecimal (n + d).toInt) inp := fun d =>
    ⟨hready, (length_toDecimal_toInt _).trans hroom, halloc⟩
  cases call
  case incr =>
      obtain ⟨ttl, createdNew, hplan⟩ := incrPlan_of_startsAt (orOne delta) ttlSeconds inp.now hstart
      refine ⟨expiryFor inp.creationTime ttl, ?_⟩
      simp only [run, CacheManager.incr, CacheManager.readModifyWrite_of_ready hready, hplan,
        incrStore, Plan.run_store_of_stores (hstores _)]
      rfl
  case increment =>
      obtain ⟨ttl, hplan⟩ := atomicAddPlan_of_startsAt (orOne delta) ttlSeconds inp.now hstart
      refine ⟨expiryFor inp.creationTime ttl, ?_⟩
      simp only [run, CacheManager.increment, CacheManager.atomicAddValue,
        CacheManager.readModifyWrite_of_ready hready, hplan, addStore,
        Plan.run_store_of_stores (hstores _)]
      rfl
  case decrement =>
      obtain ⟨ttl, hplan⟩ := atomicAddPlan_of_startsAt (-orOne delta) ttlSeconds inp.now hstart
      refine ⟨expiryFor inp.creationTime ttl, ?_⟩
      simp only [run, CacheManager.decrement, CacheManager.atomicAddValue,
        CacheManager.readModifyWrite_of_ready hready, hplan, addStore,
        Plan.run_store_of_stores (hstores _)]
      rfl

theorem counts_exactly_iff_of_startsAt (hready : m.ready = true) (hroom : 20 ≤ m.maxItemSize)
    (halloc : inp.allocated = true) (call : CountCall) (delta : Int64) (ttlSeconds : UInt32)
    (hstart : StartsAt (call.seen slot inp) n)
    (honly : ∀ base, CountsFrom (call.seen slot inp) base → base = n.toInt) :
    CountsExactly m call slot delta ttlSeconds inp ↔
      CountsFrom (call.seen slot inp) n.toInt ∧ Fits (call.result delta n.toInt) := by
  obtain ⟨expiryTime, hrun⟩ :=
    call.run_of_startsAt hready hroom halloc delta ttlSeconds hstart
  have hsum := call.toInt_add_addend n delta
  constructor
  · intro hexact
    by_contra hnot
    -- If the condition failed, the call would have to fail; but it succeeds.
    have hnone : ¬ ∃ base, CountsFrom (call.seen slot inp) base ∧
        Fits (call.result delta base) := by
      rintro ⟨base, hbase, hfits⟩
      have := honly base hbase
      subst this
      exact hnot ⟨hbase, hfits⟩
    have hfail := (hexact.fails hnone).1
    rw [hrun] at hfail
    exact absurd hfail (by simp)
  · rintro ⟨hbase, hfits⟩
    rw [bmod_of_fits hfits] at hsum
    refine ⟨?_, fun hnone => absurd ⟨_, hbase, hfits⟩ hnone⟩
    intro base hbase' _
    rw [honly base hbase', hrun]
    exact ⟨rfl, hsum, by rw [← hsum]; rfl⟩

end Call

/-- **When the counters are exact.** With allocation going through, a call on any
stored bytes with any delta does what a counter is for exactly on the clean
inputs. -/
theorem counts_exactly_iff (m : CacheManager) (call : CountCall) (slot : Option Item)
    (delta : Int64) (ttlSeconds : UInt32) (inp : Inputs) (hready : m.ready = true)
    (hroom : 20 ≤ m.maxItemSize) (halloc : inp.allocated = true) :
    CountsExactly m call slot delta ttlSeconds inp ↔
      Clean (call.seen slot inp) (call.result delta) := by
  rcases hseen : call.seen slot inp with _ | s
  · have hstart : StartsAt (call.seen slot inp) 0 := by rw [hseen]; rfl
    rw [counts_exactly_iff_of_startsAt hready hroom halloc call delta ttlSeconds hstart, hseen]
    · exact ⟨And.right, fun hfits => ⟨rfl, hfits⟩⟩
    · intro base hbase
      rw [hseen] at hbase
      exact hbase
  rcases hparse : parseInt64 s with e | n
  · -- the parser fails: the call does, and there is nothing to count from
    have hnone : ∀ k rest, LeadingNumeral s k rest → ¬ Fits k := fun k rest =>
      parseInt64_eq_error hparse
    refine ⟨fun _ k rest hlead hfits => absurd hfits (hnone k rest hlead), fun _ => ?_⟩
    refine ⟨?_, fun _ => ?_⟩
    · intro base hbase _
      rw [hseen] at hbase
      exact absurd hbase.2 (hnone base [] (leadingNumeral_nil_iff.mpr hbase.1))
    · rw [call.run_of_parse_error hready delta ttlSeconds hseen hparse]
      exact ⟨rfl, rfl⟩
  · -- the parser reads `n` and leaves `rest`: exact only if `rest` is empty
    obtain ⟨rest, hlead⟩ := parseInt64_eq_ok hparse
    have hstart : StartsAt (call.seen slot inp) n := by rw [hseen]; exact hparse
    rw [counts_exactly_iff_of_startsAt hready hroom halloc call delta ttlSeconds hstart, hseen]
    · constructor
      · rintro ⟨⟨hnum, _⟩, hfits⟩ k rest' hlead' _
        obtain ⟨rfl, rfl⟩ := hlead'.unique (leadingNumeral_nil_iff.mpr hnum)
        exact ⟨rfl, hfits⟩
      · intro hclean
        obtain ⟨rfl, hfits⟩ := hclean n.toInt rest hlead (fits_toInt n)
        exact ⟨⟨leadingNumeral_nil_iff.mp hlead, fits_toInt n⟩, hfits⟩
    · intro base hbase
      rw [hseen] at hbase
      exact ((leadingNumeral_nil_iff.mpr hbase.1).unique hlead).1

/-- `41` is clean for an increment by one. -/
theorem counts_exactly_forty_one :
    CountsExactly { ready := true } .increment (some ⟨[52, 49], 0⟩) 1 0 (.within 1000) := by
  refine (counts_exactly_iff _ _ _ _ _ _ rfl (by decide) rfl).mpr ?_
  have hlead : LeadingNumeral [52, 49] 41 [] :=
    (leadingNumeral_of_fromChars (rfl : fromChars 0 41 [52, 49] = .ok (41, []))).1
  intro n rest hlead' _
  obtain ⟨rfl, rfl⟩ := hlead'.unique hlead
  exact ⟨rfl, by unfold Fits; decide⟩

/-- Two inputs that are not: an increment of `12abc` reports success and stores
`13`, and an increment of the largest 64-bit integer stores the smallest. -/
theorem increment_not_exact :
    ¬ CountsExactly { ready := true } .increment (some ⟨[49, 50, 97, 98, 99], 0⟩) 1 0
        (.within 1000) ∧
    ¬ CountsExactly { ready := true } .increment (some ⟨toDecimal (2 ^ 63 - 1), 0⟩) 1 0
        (.within 1000) := by
  constructor
  · intro hexact
    have hlead : LeadingNumeral [49, 50, 97, 98, 99] 12 [97, 98, 99] :=
      (leadingNumeral_of_fromChars
        (rfl : fromChars 0 12 [49, 50, 97, 98, 99] = .ok (12, [97, 98, 99]))).1
    have hfail := (hexact.fails ?_).1
    · exact absurd hfail (by decide)
    · rintro ⟨base, ⟨hnum, _⟩, _⟩
      have := ((leadingNumeral_nil_iff.mpr hnum).unique hlead).2
      exact absurd this (by simp)
  · intro hexact
    have hfail := (hexact.fails ?_).1
    · exact absurd hfail (by decide)
    · rintro ⟨base, ⟨hnum, _⟩, hfits⟩
      have := ((leadingNumeral_nil_iff.mpr hnum).unique
        (leadingNumeral_nil_iff.mpr (isNumeral_toDecimal _))).1
      subst this
      exact absurd hfits (by unfold Fits; decide)

/-! ## Concurrent counting -/

section Concurrent

open Linearize Transition

variable {m : CacheManager}

/-- The counting call without a time to live -/
def CountCall.op (delta : Int64) : CountCall → Op
  | .increment => .increment delta 0
  | .decrement => .decrement delta 0
  | .incr => .incr delta 0

/-- Such a call, for which memory is found -/
def Counts (call : Op × Inputs) : Prop :=
  call.2.allocated = true ∧ ∃ count : CountCall, ∃ delta, call.1 = count.op delta

/-- What a call adds -/
def Op.addend : Op → Int64
  | .increment delta _ => CountCall.increment.addend delta
  | .decrement delta _ => CountCall.decrement.addend delta
  | .incr delta _ => CountCall.incr.addend delta
  | _ => 0

/-- A counter that does not expire -/
def counter (n : Int64) : Option Item := some ⟨toDecimal n.toInt, 0⟩

theorem parseInt64_toDecimal (n : Int64) : parseInt64 (toDecimal n.toInt) = .ok n := by
  have hok := fromChars_eq_ok_iff.mpr ⟨leadingNumeral_nil_iff.mpr (isNumeral_toDecimal n.toInt),
    (fits_iff _).mp (fits_toInt n)⟩
  rw [parseInt64, hok]
  exact congrArg Except.ok (Int64.ofInt_toInt n)

/-- A call that finds a counter is going to store the sum. -/
theorem CountCall.planAt_counter (count : CountCall) (delta : Int64) (inp : Inputs) (n : Int64) :
    ∃ stored failed, (count.op delta).planAt inp (counter n)
      = some (.store (toDecimal (n + (count.op delta).addend).toInt) 0 stored failed) := by
  have hfind : find inp.findClock (counter n) = some ⟨toDecimal n.toInt, 0⟩ := rfl
  have hparse := parseInt64_toDecimal n
  cases count <;> simp only [CountCall.op, Op.planAt, hfind, atomicAddPlan, incrPlan, hparse]
  all_goals exact ⟨_, _, rfl⟩

theorem Counts.run_counter (hready : m.ready = true) (hroom : 20 ≤ m.maxItemSize)
    {call : Op × Inputs} (h : Counts call) (n : Int64) :
    (sequential m call (counter n)).1 = counter (n + call.1.addend) := by
  obtain ⟨op, inp⟩ := call
  obtain ⟨halloc, count, delta, rfl⟩ := h
  obtain ⟨stored, failed, hplan⟩ := count.planAt_counter delta inp n
  have hstores : m.stores (toDecimal (n + (count.op delta).addend).toInt) inp :=
    ⟨hready, (length_toDecimal_toInt _).trans hroom, halloc⟩
  rw [sequential, Op.run_of_planAt hready hplan, Plan.run_store_of_stores hstores]
  rfl

theorem finalState_counter (hready : m.ready = true) (hroom : 20 ≤ m.maxItemSize)
    {seq : List (ℕ × Op × Inputs)} (hseq : ∀ call ∈ seq, Counts call.2) (n : Int64) :
    finalState (sequential m) (counter n) seq
      = counter (seq.foldl (fun k call => k + call.2.1.addend) n) := by
  induction seq generalizing n with
  | nil => rfl
  | cons call seq ih =>
      obtain ⟨hcall, hseq⟩ := List.forall_mem_cons.mp hseq
      rw [finalState, hcall.run_counter hready hroom, ih hseq, List.foldl_cons]

/-- A call in the history has been invoked. -/
theorem invoke_of_step {s t : System} {l : Label} (hstep : step m s l = some t) {id : ℕ}
    {call : Op × Inputs} (hmem : .invoke id call ∈ t.history) :
    .invoke id call ∈ s.history ∨ l = .invoke id call.1 call.2 := by
  cases l <;> grind [step, System.setPhase, Option.map_eq_some_iff]

/-- The history so far is linearizable, and has only counting calls. -/
def Counting (m : CacheManager) (n : Int64) (s : System) : Prop :=
  Inv m (counter n) s ∧ ∀ id call, .invoke id call ∈ s.history → Counts call

theorem Counting.step (hready : m.ready = true) {n : Int64} {s t : System} {l : Label}
    (h : Counting m n s) (hcounts : ∀ id op inp, l = .invoke id op inp → Counts (op, inp))
    (hstep : step m s l = some t) : Counting m n t := by
  obtain ⟨hinv, hhistory⟩ := h
  refine ⟨step_inv hready l hinv ?_ hstep, fun id call hmem => ?_⟩
  · cases l with
    | plain id =>
        -- every call takes the mutex, so there are no plain writes
        intro op inp hphase hwrites
        obtain ⟨seq, -, hok⟩ := hinv
        have hpending := hok id
        rw [hphase] at hpending
        obtain ⟨-, count, delta, rfl⟩ := hhistory id _ hpending.1
        cases count <;> exact hwrites.elim
    | _ => trivial
  · rcases invoke_of_step hstep hmem with hmem | hl
    · exact hhistory id call hmem
    · exact hcounts id _ _ hl

/-- **No update is lost.** In every interleaving of `increment`, `decrement` and `incr` on a counter,
all without a time to live, the counter is at every moment the start value plus what the calls have
added that have taken effect: each of them once, and among them all those that have returned. -/
theorem counter_adds_up (hready : m.ready = true) (hroom : 20 ≤ m.maxItemSize) (n : Int64)
    {ls : List Label} {s : System} (hcounts : ∀ id op inp, .invoke id op inp ∈ ls → Counts (op, inp))
    (hrun : exec (step m) (.init (counter n)) ls = some s) :
    ∃ seq, Linearizes (sequential m) (counter n) s.history s.slot seq ∧
      s.slot = counter (seq.foldl (fun k call => k + call.2.1.addend) n) := by
  obtain ⟨⟨seq, hlin, -⟩, hhistory⟩ : Counting m n s :=
    exec_invariant_along (fun _ _ _ h hl => h.step hready hl) hrun
      (Along.of_forall (C := fun _ l => ∀ id op inp, l = .invoke id op inp → Counts (op, inp))
        fun l hl _ id op inp heq => hcounts id op inp (heq ▸ hl))
      ⟨inv_init m _, by simp [System.init]⟩
  refine ⟨seq, hlin, ?_⟩
  rw [← hlin.finalState_eq]
  exact finalState_counter hready hroom (fun call hmem => hhistory _ _ (hlin.invoked _ _ hmem)) n

/-- Both calls are under way before the first takes the mutex. -/
def addAndSubtract : List Label :=
  [.invoke 0 (.increment 5 0) (.within 1000), .invoke 1 (.decrement 2 0) (.within 1000), .lock 1,
    .find 1, .write 1, .reply 1, .lock 0, .find 0, .write 0]

theorem counter_adds_up_addAndSubtract :
    ∃ s, exec (step { ready := true }) (.init (counter 41)) addAndSubtract = some s ∧
      s.slot = some ⟨[52, 52], 0⟩ ∧
      ∃ seq, Linearizes (sequential { ready := true }) (counter 41) s.history s.slot seq ∧
        s.slot = counter (seq.foldl (fun k call => k + call.2.1.addend) 41) := by
  obtain ⟨s, hrun, hslot⟩ : ∃ s, exec (step { ready := true }) (.init (counter 41)) addAndSubtract
      = some s ∧ s.slot = some ⟨[52, 52], 0⟩ := ⟨_, rfl, rfl⟩
  refine ⟨s, hrun, hslot, counter_adds_up rfl (by decide) 41 ?_ hrun⟩
  intro id op inp hmem
  simp only [addAndSubtract, List.mem_cons, Label.invoke.injEq, List.not_mem_nil, reduceCtorEq,
    or_false] at hmem
  rcases hmem with ⟨-, rfl, rfl⟩ | ⟨-, rfl, rfl⟩
  · exact ⟨rfl, .increment, 5, rfl⟩
  · exact ⟨rfl, .decrement, 2, rfl⟩

end Concurrent

end CacheLib.Server
